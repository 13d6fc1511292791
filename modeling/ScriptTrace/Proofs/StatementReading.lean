import ScriptTrace.Proofs.StatementShapes
import ScriptTrace.Proofs.WordedTrees

/-!
# Reading statements

Statements are read by their first tokens, where an `else` belongs to the nearest `if` before it that has none. How the
expressions in them are read is left open: what is asked for is that their ends are found.

* `readStatement` : the statement at the front of a text, and what is behind it; `Alphabet.readShape` : a whole text;
* `Spells` : the texts of a statement, with any space between its tokens;
* `Absorbs` : what becomes of a statement in front of a text that goes on with `else`;
* `Spells.reads`, `Spells.readShape` : what is read of a text that spells a statement.
-/

namespace ScriptTrace

/-- What a statement begins with. -/
inductive Start where
  | semicolon
  | brace
  | ifWord
  | loop (word : LoopWord)
  | doWord
  | label (name : String)
  | expression
  deriving DecidableEq, Repr

/-- The tokens that a statement is known by. -/
def startTokens : List (Token × Start) :=
  [(.sign ";", .semicolon), (.sign "\x7b", .brace), (.word "if", .ifWord), (.word "while", .loop .whileWord),
    (.word "for", .loop .forWord), (.word "do", .doWord)]

def statementSigns : List String := [";", "\x7b", "\x7d"]

def statementWords : List String := ["if", "else", "while", "for", "do"]

/-- The tokens that begin no expression: those of other statements, and what ends a list of statements or goes on a
branch. -/
def statementTokens : List Token := statementSigns.map .sign ++ statementWords.map .word

theorem mem_statementTokens {known : Token × Start} (h : known ∈ startTokens) : known.1 ∈ statementTokens := by
  have hall : ∀ known ∈ startTokens, known.1 ∈ statementTokens := by decide
  exact hall known h

theorem statementTokens_cases {t : Token} (h : t ∈ statementTokens) :
    (∃ sign ∈ statementSigns, t = .sign sign) ∨ ∃ word ∈ statementWords, t = .word word :=
  (List.mem_append.1 h).imp (fun h => (List.mem_map.1 h).imp fun _ h => ⟨h.1, h.2.symm⟩)
    fun h => (List.mem_map.1 h).imp fun _ h => ⟨h.1, h.2.symm⟩

/-- What reads up to a closing sign: the text in front of the sign, and the text behind it. -/
abbrev Scan := Char → List Char → Option (String × List Char)

namespace Alphabet

variable (A : Alphabet)

/-- A name with a colon behind it. -/
def label? (cs : List Char) : Option (String × List Char) :=
  let cs := cs.dropWhile A.isSpace
  let name := String.ofList (cs.takeWhile A.isPart)
  if cs.head?.any A.isStart && !reservedWords.contains name then
    (A.after? (.sign ":") (cs.dropWhile A.isPart)).map (name, ·)
  else none

/-- What a statement begins with, and the text behind that. -/
def start (cs : List Char) : Start × List Char :=
  match startTokens.findSome? fun known => (A.after? known.1 cs).map (known.2, ·) with
  | some found => found
  | none =>
    match A.label? cs with
    | some (name, rest) => (.label name, rest)
    | none => (.expression, cs.dropWhile A.isSpace)

/-- The head of a branch or a loop. -/
def headOf (scan : Scan) (cs : List Char) : Option (String × List Char) := A.after? (.sign "(") cs >>= scan ')'

end Alphabet

mutual

/-- The statement at the front of a text, and the text behind it. -/
def readStatement (A : Alphabet) (scan : Scan) : Nat → List Char → Option (Shape × List Char)
  | 0, _ => none
  | depth + 1, cs =>
    match A.start cs with
    | (.semicolon, rest) => some (.empty, rest)
    | (.brace, rest) => do
      let (body, rest) ← readBody A scan depth rest
      return (.block body, rest)
    | (.ifWord, rest) => do
      let (test, rest) ← A.headOf scan rest
      let (yes, rest) ← readStatement A scan depth rest
      match A.after? (.word "else") rest with
      | none => return (.branch test yes, rest)
      | some rest =>
        let (no, rest) ← readStatement A scan depth rest
        return (.choice test yes no, rest)
    | (.loop word, rest) => do
      let (head, rest) ← A.headOf scan rest
      let (body, rest) ← readStatement A scan depth rest
      return (.loop word head body, rest)
    | (.doWord, rest) => do
      let (body, rest) ← readStatement A scan depth rest
      let rest ← A.after? (.word "while") rest
      let (test, rest) ← A.headOf scan rest
      let rest ← A.after? (.sign ";") rest
      return (.doLoop body test, rest)
    | (.label name, rest) => do
      let (body, rest) ← readStatement A scan depth rest
      return (.labelled name body, rest)
    | (.expression, rest) => do
      let (text, rest) ← scan ';' rest
      return (.expression text, rest)

/-- The statements up to a closing brace, and the text behind it. -/
def readBody (A : Alphabet) (scan : Scan) : Nat → List Char → Option (List Shape × List Char)
  | 0, _ => none
  | depth + 1, cs =>
    match A.after? (.sign "\x7d") cs with
    | some rest => some ([], rest)
    | none => do
      let (s, rest) ← readStatement A scan depth cs
      let (body, rest) ← readBody A scan depth rest
      return (s :: body, rest)

end

/-- The statement that a whole text is. -/
def Alphabet.readShape (A : Alphabet) (scan : Scan) (text : String) : Option Shape := do
  let (s, rest) ← readStatement A scan (2 * text.toList.length + 1) text.toList
  if (rest.dropWhile A.isSpace).isEmpty then some s else none

/-! ## The first token -/

namespace Alphabet

variable {A : Alphabet} {cs g rest u : List Char} {t t' : Token} {s : Start} {name : String}

/-- Space between tokens, as the printer writes it. -/
def IsGap (g : List Char) : Prop := g ≠ [] ∧ ∀ c ∈ g, c = ' ' ∨ c = '\n'

theorem isGap_space : IsGap [' '] := ⟨List.cons_ne_nil _ _, by simp⟩

theorem IsGap.space (hg : IsGap g) : ∀ c ∈ g, A.isSpace c = true := by
  intro c hc
  rcases hg.2 c hc with rfl | rfl <;> rfl

theorem IsGap.dropWhile (hg : IsGap g) : (g ++ cs).dropWhile A.isSpace = cs.dropWhile A.isSpace :=
  List.dropWhile_append_of_pos hg.space

theorem IsGap.not_part (hg : IsGap g) : ∀ c ∈ (g ++ cs).head?, A.isPart c = false := by
  obtain ⟨c, g, rfl⟩ := List.exists_cons_of_ne_nil hg.1
  rintro _ ⟨⟩
  rcases hg.2 c (List.mem_cons_self ..) with rfl | rfl <;> rfl

theorem after?_gap (hg : IsGap g) : A.after? t (g ++ cs) = A.after? t cs := by
  rw [after?, after?, hg.dropWhile]

theorem label?_gap (hg : IsGap g) : A.label? (g ++ cs) = A.label? cs := by
  rw [label?, label?, hg.dropWhile]

theorem start_gap (hg : IsGap g) : A.start (g ++ cs) = A.start cs := by
  simp only [start, after?_gap hg, label?_gap hg, hg.dropWhile]

/-- A token at the very front. -/
theorem after?_front (ht : t ∈ statementTokens ++ [.sign "(", .sign ":"])
    (hu : t.isWord = true → ∀ c ∈ u.head?, A.isPart c = false) : A.after? t (t.text.toList ++ u) = some u := by
  have hall : ∀ t ∈ statementTokens ++ [.sign "(", .sign ":"], t.text.toList.head?.any (!isGap ·) = true := by decide
  obtain ⟨c, hc, hgap⟩ := (Option.any_eq_true _ _).1 (hall t ht)
  obtain ⟨ds, hds⟩ := List.head?_eq_some_iff.1 hc
  refine after?_eq_some_iff.2 ⟨?_, hu⟩
  rw [hds, List.cons_append]
  exact List.dropWhile_cons_of_neg (by simp [isSpace_of_not_gap (by simpa using hgap)])

/-- A sign at the very front, whatever is behind it. -/
theorem after?_sign (sign : String) (h : .sign sign ∈ statementTokens ++ [.sign "(", .sign ":"]) :
    A.after? (.sign sign) (sign.toList ++ u) = some u := after?_front h fun hword => absurd hword Bool.false_ne_true

/-- No two of the tokens stand at the front of one text. -/
theorem after?_unique (ht : t ∈ statementTokens) (ht' : t' ∈ statementTokens) {rest' : List Char}
    (h : A.after? t cs = some rest) (h' : A.after? t' cs = some rest') : t = t' := by
  have hall : ∀ t ∈ statementTokens, ∀ t' ∈ statementTokens, t.text.toList.isPrefixOf t'.text.toList = true → t = t' := by
    decide
  have hbegins {t : Token} {rest : List Char} (h : A.after? t cs = some rest) :
      t.text.toList <+: cs.dropWhile A.isSpace := ⟨rest, (after?_eq_some_iff.1 h).1.symm⟩
  rcases List.prefix_or_prefix_of_prefix (hbegins h) (hbegins h') with hsub | hsub
  · exact hall t ht t' ht' (List.isPrefixOf_iff_prefix.2 hsub)
  · exact (hall t' ht' t ht (List.isPrefixOf_iff_prefix.2 hsub)).symm

/-- What begins with one of the tokens begins with no other of them. -/
theorem after?_other (ht : t ∈ statementTokens) (ht' : t' ∈ statementTokens) (h : A.after? t cs = some rest) (hne : t ≠ t') :
    A.after? t' cs = none :=
  Option.eq_none_iff_forall_ne_some.2 fun _ h' => hne (after?_unique ht ht' h h')

/-- A statement that begins with one of the tokens is known by it. -/
theorem start_of_token (hmem : (t, s) ∈ startTokens) (h : A.after? t cs = some rest) : A.start cs = (s, rest) := by
  have hsame : ∀ a ∈ startTokens, ∀ b ∈ startTokens, a.1 = b.1 → a = b := by decide
  rw [start]
  cases hfind : startTokens.findSome? fun known => (A.after? known.1 cs).map (known.2, ·) with
  | none =>
    have hnone := Option.map_eq_none_iff.1 (List.findSome?_eq_none_iff.1 hfind (t, s) hmem)
    rw [h] at hnone
    cases hnone
  | some found =>
    obtain ⟨⟨t', s'⟩, hmem', hfound⟩ := List.exists_of_findSome?_eq_some hfind
    obtain ⟨rest', h', rfl⟩ := Option.map_eq_some_iff.1 hfound
    have heq := hsame _ hmem _ hmem' (after?_unique (mem_statementTokens hmem) (mem_statementTokens hmem') h h')
    cases heq
    rw [h] at h'
    cases h'
    rfl

theorem length_after? (h : A.after? t cs = some rest) : rest.length + t.text.toList.length ≤ cs.length := by
  have hle := (List.dropWhile_suffix A.isSpace (l := cs)).length_le
  rw [(after?_eq_some_iff.1 h).1, List.length_append] at hle
  omega

/-- What a name that is not reserved begins with is none of the tokens. -/
theorem after?_label (ht : t ∈ statementTokens) (hname : (Token.word name).Proper A) (hreserved : name ∉ reservedWords)
    (hu : ∀ c ∈ u.head?, A.isPart c = false) : A.after? t (name.toList ++ u) = none := by
  obtain ⟨⟨c, cs, hcs, hstart⟩, hparts⟩ := hname.word_chars
  have hspace : A.isSpace c = false := isSpace_of_isStart hstart
  rcases statementTokens_cases ht with ⟨sign, hsign, rfl⟩ | ⟨word, hword, rfl⟩
  · have hall : ∀ sign ∈ statementSigns, sign ≠ "" ∧
        sign.toList.head?.all (fun c => decide (c.toNat < 128) && !ascii.isStart c) = true := by decide
    obtain ⟨hne, hhead⟩ := hall sign hsign
    rw [hcs, List.cons_append]
    refine after?_of_head hspace (fun he => ?_) hne
    rw [show sign.toList.head? = some c from he, Option.all_some, Bool.and_eq_true, decide_eq_true_eq, Bool.not_eq_true'] at hhead
    rw [isStart, if_pos hhead.1] at hstart
    rw [isStart, if_pos hhead.1, hstart] at hhead
    cases hhead.2
  · have hall : ∀ word ∈ statementWords, word ∈ reservedWords ∧
        word.toList.all (fun c => decide (c.toNat < 128) && ascii.isPart c) = true := by decide
    obtain ⟨hmem, hword⟩ := hall word hword
    have hne : word ≠ name := fun he => hreserved (he ▸ hmem)
    rw [after?_word (by rw [hcs]; rintro _ ⟨⟩; exact hspace) (by rintro rfl; cases hcs) (isPart_of_all hword) hparts hu, if_neg hne]

/-- A name with a colon behind it is a label. -/
theorem label?_name (hname : (Token.word name).Proper A) (hreserved : name ∉ reservedWords) :
    A.label? (name.toList ++ ':' :: u) = some (name, u) := by
  obtain ⟨⟨c, cs, hcs, hstart⟩, hparts⟩ := hname.word_chars
  have hspace : A.isSpace c = false := isSpace_of_isStart hstart
  have hdrop : (name.toList ++ ':' :: u).dropWhile A.isSpace = name.toList ++ ':' :: u := by
    rw [hcs]
    exact dropWhile_space (by rintro _ ⟨⟩; exact hspace)
  have hcolon : ∀ c ∈ (':' :: u).head?, A.isPart c = false := by
    rintro _ ⟨⟩
    rfl
  obtain ⟨htake, hrest⟩ := word_span hparts hcolon
  have hhead : (name.toList ++ ':' :: u).head?.any A.isStart = true := by
    rw [hcs]
    exact hstart
  have hcontains : reservedWords.contains name = false := by simpa using hreserved
  rw [label?]
  simp only [hdrop, htake, hrest, hhead, String.ofList_toList, hcontains, Bool.not_false, Bool.and_true, if_true]
  have hafter : A.after? (.sign ":") (":".toList ++ u) = some u := after?_sign ":" (by decide)
  rw [show (':' :: u) = ":".toList ++ u from rfl, hafter]
  rfl

/-- A statement that begins with none of the tokens is an expression, or what is behind a label. -/
theorem start_of_none (h : ∀ t ∈ statementTokens, A.after? t cs = none) : A.start cs =
    match A.label? cs with
    | some (name, rest) => (.label name, rest)
    | none => (.expression, cs.dropWhile A.isSpace) := by
  have hnone : startTokens.findSome? (fun known => (A.after? known.1 cs).map (known.2, ·)) = none :=
    List.findSome?_eq_none_iff.2 fun a ha => Option.map_eq_none_iff.2 (h a.1 (mem_statementTokens ha))
  rw [start, hnone]

end Alphabet

/-! ## Reading one statement -/

open Alphabet

section Statements

variable {A : Alphabet} {scan : Scan} {cs g inner rest u v w : List Char} {s yes no r : Shape} {body : List Shape}
  {text test name : String}

/-- The end of the text is found, whatever is behind it. -/
def Finds (scan : Scan) (sign : Char) (text : String) : Prop := ∀ u, scan sign (text.toList ++ sign :: u) = some (text, u)

/-- The statement is what is read at the front of a text, wherever statements are read deep enough: two levels for each
character, one for a statement and one for a list that it begins. -/
structure ReadsAs (A : Alphabet) (scan : Scan) (cs : List Char) (s : Shape) (rest : List Char) : Prop where
  shorter : rest.length < cs.length
  reads (depth : Nat) : 2 * cs.length < depth → readStatement A scan depth cs = some (s, rest)

/-- The same for the statements up to a closing brace. -/
structure ReadsBody (A : Alphabet) (scan : Scan) (cs : List Char) (body : List Shape) (rest : List Char) : Prop where
  shorter : rest.length ≤ cs.length
  reads (depth : Nat) : 2 * cs.length + 1 < depth → readBody A scan depth cs = some (body, rest)

theorem ReadsAs.of_depth (hshorter : rest.length < cs.length)
    (h : ∀ depth, 2 * cs.length ≤ depth → readStatement A scan (depth + 1) cs = some (s, rest)) : ReadsAs A scan cs s rest := by
  refine ⟨hshorter, fun depth hdepth => ?_⟩
  cases depth with
  | zero => cases hdepth
  | succ depth => exact h depth (Nat.le_of_lt_succ hdepth)

theorem ReadsBody.of_depth (hshorter : rest.length ≤ cs.length)
    (h : ∀ depth, 2 * cs.length < depth → readBody A scan (depth + 1) cs = some (body, rest)) : ReadsBody A scan cs body rest := by
  refine ⟨hshorter, fun depth hdepth => ?_⟩
  cases depth with
  | zero => cases hdepth
  | succ depth => exact h depth (Nat.lt_of_succ_lt_succ hdepth)

/-- Space in front is skipped. -/
theorem readStatement_gap (hg : IsGap g) (depth : Nat) :
    readStatement A scan depth (g ++ cs) = readStatement A scan depth cs := by
  cases depth with
  | zero => rfl
  | succ depth => rw [readStatement, readStatement, start_gap hg]

theorem readBody_gap (hg : IsGap g) (depth : Nat) : readBody A scan depth (g ++ cs) = readBody A scan depth cs := by
  cases depth with
  | zero => rfl
  | succ depth => rw [readBody, readBody, after?_gap hg, readStatement_gap hg]

theorem ReadsAs.gap (hg : IsGap g) (h : ReadsAs A scan cs s rest) : ReadsAs A scan (g ++ cs) s rest := by
  have hle : cs.length ≤ (g ++ cs).length := by simp
  refine ⟨Nat.lt_of_lt_of_le h.shorter hle, fun depth hdepth => ?_⟩
  rw [readStatement_gap hg]
  exact h.reads depth (by omega)

theorem ReadsBody.gap (hg : IsGap g) (h : ReadsBody A scan cs body rest) : ReadsBody A scan (g ++ cs) body rest := by
  have hle : cs.length ≤ (g ++ cs).length := by simp
  refine ⟨Nat.le_trans h.shorter hle, fun depth hdepth => ?_⟩
  rw [readBody_gap hg]
  exact h.reads depth (by omega)

/-! ### One form at a time -/

theorem reads_empty : ReadsAs A scan (';' :: u) .empty u := by
  refine .of_depth (by simp) fun depth _ => ?_
  have hstart : A.start (';' :: u) = (.semicolon, u) :=
    start_of_token (t := .sign ";") (by decide) (after?_sign ";" (by decide))
  rw [readStatement, hstart]

theorem reads_block (h : ReadsBody A scan inner body u) : ReadsAs A scan ('\x7b' :: inner) (.block body) u := by
  refine .of_depth (Nat.lt_succ_of_le h.shorter) fun depth hdepth => ?_
  have hstart : A.start ('\x7b' :: inner) = (.brace, inner) :=
    start_of_token (t := .sign "\x7b") (by decide) (after?_sign "\x7b" (by decide))
  rw [readStatement, hstart]
  simp only [h.reads depth (by rw [List.length_cons] at hdepth; omega), Option.bind_eq_bind, Option.bind_some, Option.pure_def]

/-- A head in parentheses. -/
theorem headOf_finds (h : Finds scan ')' text) : A.headOf scan (" (".toList ++ (text.toList ++ ')' :: u)) = some (text, u) := by
  have hafter : A.after? (.sign "(") ("(".toList ++ (text.toList ++ ')' :: u)) = some (text.toList ++ ')' :: u) :=
    after?_sign "(" (by decide)
  rw [headOf, show " (".toList ++ (text.toList ++ ')' :: u) = [' '] ++ ("(".toList ++ (text.toList ++ ')' :: u)) from rfl,
    after?_gap isGap_space, hafter]
  exact h u

/-- A word in front of a space. -/
theorem after?_spaced {t : Token} (ht : t ∈ statementTokens) (hg : IsGap g) :
    A.after? t (t.text.toList ++ (g ++ u)) = some (g ++ u) :=
  after?_front (List.mem_append_left _ ht) fun _ => hg.not_part

/-- A word with a head in parentheses behind it. -/
def headed (word text : String) (inner : List Char) : List Char := word.toList ++ (" (".toList ++ (text.toList ++ ')' :: inner))

theorem start_headed (start : Start) (h : (.word name, start) ∈ startTokens) :
    A.start (headed name text inner) = (start, " (".toList ++ (text.toList ++ ')' :: inner)) :=
  start_of_token h (after?_spaced (g := [' ']) (mem_statementTokens h) isGap_space)

theorem length_headed (word text : String) (inner : List Char) : inner.length < (headed word text inner).length := by
  simp only [headed, List.length_append, List.length_cons]
  omega

theorem reads_branch (htest : Finds scan ')' test) (hyes : ReadsAs A scan inner yes u)
    (helse : A.after? (.word "else") u = none) : ReadsAs A scan (headed "if" test inner) (.branch test yes) u := by
  have hlength := length_headed "if" test inner
  have hshorter := hyes.shorter
  refine .of_depth (by omega) fun depth hdepth => ?_
  rw [readStatement, start_headed .ifWord (by decide)]
  simp only [headOf_finds htest, hyes.reads depth (by omega), helse, Option.bind_eq_bind, Option.bind_some, Option.pure_def]

theorem reads_choice (htest : Finds scan ')' test) (hyes : ReadsAs A scan inner yes u)
    (helse : A.after? (.word "else") u = some v) (hno : ReadsAs A scan v no w) :
    ReadsAs A scan (headed "if" test inner) (.choice test yes no) w := by
  have hlength := length_headed "if" test inner
  have hshorter := hyes.shorter
  have hshorter' := hno.shorter
  have hbehind := length_after? helse
  refine .of_depth (by omega) fun depth hdepth => ?_
  rw [readStatement, start_headed .ifWord (by decide)]
  simp only [headOf_finds htest, hyes.reads depth (by omega), helse, hno.reads depth (by omega), Option.bind_eq_bind,
    Option.bind_some, Option.pure_def]

theorem reads_loop {word : LoopWord} (hhead : Finds scan ')' text) (hbody : ReadsAs A scan inner s u) :
    ReadsAs A scan (headed word.text text inner) (.loop word text s) u := by
  have hlength := length_headed word.text text inner
  have hshorter := hbody.shorter
  refine .of_depth (by omega) fun depth hdepth => ?_
  rw [readStatement, start_headed (.loop word) (by cases word <;> decide)]
  simp only [headOf_finds hhead, hbody.reads depth (by omega), Option.bind_eq_bind, Option.bind_some, Option.pure_def]

theorem reads_doLoop {g' : List Char} (hg : IsGap g) (hg' : IsGap g') (htest : Finds scan ')' test)
    (hbody : ReadsAs A scan inner s (g' ++ headed "while" test (';' :: u))) :
    ReadsAs A scan ("do".toList ++ (g ++ inner)) (.doLoop s test) u := by
  have hstart : A.start ("do".toList ++ (g ++ inner)) = (.doWord, g ++ inner) :=
    start_of_token (t := .word "do") (by decide) (after?_spaced (t := .word "do") (by decide) hg)
  have hwhile : A.after? (.word "while") (g' ++ headed "while" test (';' :: u)) =
      some (" (".toList ++ (test.toList ++ ')' :: ';' :: u)) := by
    rw [after?_gap hg']
    exact after?_spaced (t := .word "while") (g := [' ']) (by decide) isGap_space
  have hsemicolon : A.after? (.sign ";") (';' :: u) = some u := after?_sign ";" (by decide)
  have hlength : (g ++ inner).length < ("do".toList ++ (g ++ inner)).length := by
    have hword : 0 < "do".toList.length := by decide
    simp only [List.length_append]
    omega
  have hinner : inner.length ≤ (g ++ inner).length := by simp
  have hrest := length_headed "while" test (';' :: u)
  have hshorter := hbody.shorter
  rw [List.length_append] at hshorter
  rw [List.length_cons] at hrest
  refine .of_depth (by omega) fun depth hdepth => ?_
  rw [readStatement, hstart]
  simp only [(hbody.gap hg).reads depth (by omega), hwhile, headOf_finds htest, hsemicolon, Option.bind_eq_bind, Option.bind_some,
    Option.pure_def]

theorem reads_labelled (hname : (Token.word name).Proper A) (hreserved : name ∉ reservedWords)
    (hbody : ReadsAs A scan inner s u) :
    ReadsAs A scan (name.toList ++ (": ".toList ++ inner)) (.labelled name s) u := by
  have hstart : A.start (name.toList ++ (": ".toList ++ inner)) = (.label name, ' ' :: inner) := by
    have hnone : ∀ t ∈ statementTokens, A.after? t (name.toList ++ (": ".toList ++ inner)) = none := fun t ht =>
      after?_label ht hname hreserved (by rintro _ ⟨⟩; rfl)
    rw [start_of_none hnone, show ": ".toList ++ inner = ':' :: ' ' :: inner from rfl, label?_name hname hreserved]
  have hshorter := hbody.shorter
  refine .of_depth (by simp; omega) fun depth hdepth => ?_
  have hread := (hbody.gap isGap_space).reads depth (by simp at hdepth ⊢; omega)
  rw [readStatement, hstart]
  simp only [show ' ' :: inner = [' '] ++ inner from rfl, hread, Option.bind_eq_bind, Option.bind_some, Option.pure_def]

end Statements

/-! ## What the words of a statement are read as -/

namespace Shape

/-- The name of a label is a name, and the text of an expression begins like none of the other statements. -/
def Worded (A : Alphabet) : Shape → Prop
  | expression text => ∀ u, (∀ t ∈ statementTokens, A.after? t (text.toList ++ ';' :: u) = none) ∧
    A.label? (text.toList ++ ';' :: u) = none ∧ (text.toList ++ ';' :: u).dropWhile A.isSpace = text.toList ++ ';' :: u
  | labelled name _ => (Token.word name).Proper A ∧ name ∉ reservedWords
  | _ => True

/-- The ends of the expressions that belong to a statement itself are found. -/
def FoundBy (scan : Scan) : Shape → Prop
  | expression text => Finds scan ';' text
  | branch test _ | choice test _ _ | doLoop _ test => Finds scan ')' test
  | loop _ head _ => Finds scan ')' head
  | _ => True

end Shape

section Statements

variable {A : Alphabet} {scan : Scan} {cs g inner rest u v w : List Char} {s yes no r : Shape} {body : List Shape}
  {text test name : String}

theorem reads_expression (hworded : (Shape.expression text).Worded A) (hfound : Finds scan ';' text) :
    ReadsAs A scan (text.toList ++ ';' :: u) (.expression text) u := by
  obtain ⟨hnone, hlabel, hdrop⟩ := hworded u
  have hstart : A.start (text.toList ++ ';' :: u) = (.expression, text.toList ++ ';' :: u) := by
    rw [start_of_none hnone, hlabel, hdrop]
  refine .of_depth (by simp; omega) fun depth hdepth => ?_
  rw [readStatement, hstart]
  simp only [hfound u, Option.bind_eq_bind, Option.bind_some, Option.pure_def]

theorem readsBody_nil : ReadsBody A scan ('\x7d' :: u) [] u := by
  have hend : A.after? (.sign "\x7d") ('\x7d' :: u) = some u := after?_sign "\x7d" (by decide)
  refine .of_depth (by simp) fun depth _ => ?_
  rw [readBody, hend]

theorem readsBody_cons (hend : A.after? (.sign "\x7d") cs = none)
    (hs : ReadsAs A scan cs s rest) (hbody : ReadsBody A scan rest body u) : ReadsBody A scan cs (s :: body) u := by
  have hshorter := hs.shorter
  refine .of_depth (by have := hbody.shorter; omega) fun depth hdepth => ?_
  rw [readBody, hend]
  simp only [hs.reads depth hdepth, hbody.reads depth (by omega), Option.bind_eq_bind, Option.bind_some, Option.pure_def]

end Statements

/-! ## A text that goes on with `else` -/

/-- A statement in front of a text takes every `else` that the text goes on with, as long as it is open. The statement
behind an `else` is read first, and takes what it can. -/
inductive Absorbs (A : Alphabet) (scan : Scan) : Shape → List Char → Shape → List Char → Prop
  | done {s : Shape} {u : List Char} : (s.isOpen = true → A.after? (.word "else") u = none) → Absorbs A scan s u s u
  | more {s no r : Shape} {u v w rest : List Char} : s.isOpen = true → A.after? (.word "else") u = some v →
    ReadsAs A scan v no w → (no.isOpen = true → A.after? (.word "else") w = none) → Absorbs A scan (s.withElse no) w r rest →
    Absorbs A scan s u r rest

namespace Absorbs

open Shape

variable {A : Alphabet} {scan : Scan} {rest u v w : List Char} {s yes no r : Shape} {test : String}

/-- In the end nothing more is taken. -/
theorem final (h : Absorbs A scan s u r rest) : r.isOpen = true → A.after? (.word "else") rest = none := by
  induction h with
  | done hend => exact hend
  | more _ _ _ _ _ ih => exact ih

/-- A statement that is not open stays what it is. -/
theorem of_closed (hs : s.isOpen = false) (h : Absorbs A scan s u r rest) : r = s ∧ rest = u := by
  cases h with
  | done => exact ⟨rfl, rfl⟩
  | more hopen => rw [hs] at hopen; cases hopen

/-- What is open because of what is inside takes it there. -/
theorem inside {f : Shape → Shape} (hopen : ∀ s, (f s).isOpen = s.isOpen)
    (helse : ∀ s no, (f s).withElse no = f (s.withElse no)) (h : Absorbs A scan (f s) u r rest) :
    ∃ s', r = f s' ∧ Absorbs A scan s u s' rest := by
  generalize ht : f s = t at h
  induction h generalizing s with
  | done hend =>
    subst ht
    exact ⟨s, rfl, .done (hopen s ▸ hend)⟩
  | more ht' hafter hread hno _ ih =>
    subst ht
    obtain ⟨s', rfl, h⟩ := ih (helse s _).symm
    exact ⟨s', rfl, .more (hopen s ▸ ht') hafter hread hno h⟩

/-- What an `if` without an `else` leads to takes what it can; the next `else` is that of the `if`. -/
theorem branch (h : Absorbs A scan (.branch test yes) u r rest) : ∃ yes' w, Absorbs A scan yes u yes' w ∧
    ((A.after? (.word "else") w = none ∧ r = .branch test yes' ∧ rest = w) ∨
      ∃ v no, A.after? (.word "else") w = some v ∧ ReadsAs A scan v no rest ∧ r = .choice test yes' no) := by
  generalize ht : Shape.branch test yes = t at h
  induction h generalizing yes with
  | done hend =>
    subst ht
    exact ⟨yes, _, .done fun _ => hend rfl, .inl ⟨hend rfl, rfl, rfl⟩⟩
  | @more _ no _ _ _ _ _ _ hafter hread hno hrest ih =>
    subst ht
    rw [withElse] at ih hrest
    cases hyes : yes.isOpen with
    | true =>
      rw [hyes, if_pos rfl] at ih
      obtain ⟨yes', w, habsorbs, hcases⟩ := ih rfl
      exact ⟨yes', w, .more hyes hafter hread hno habsorbs, hcases⟩
    | false =>
      -- this `else` is that of the `if` itself, and no other can follow
      rw [hyes, if_neg Bool.false_ne_true] at hrest
      refine ⟨yes, _, .done fun hopen => absurd (hyes.symm.trans hopen) Bool.false_ne_true, .inr ⟨_, no, hafter, ?_⟩⟩
      cases hrest with
      | done => exact ⟨hread, rfl⟩
      | more hopen hmore =>
        rw [hno hopen] at hmore
        cases hmore

/-- Behind an `else` that is taken, first the statement behind it takes what it can. -/
theorem split (hyes : yes.isOpen = true) (h : Absorbs A scan (yes.withElse no) u r rest) :
    ∃ no' w, Absorbs A scan no u no' w ∧ Absorbs A scan (yes.withElse no') w r rest := by
  generalize ht : yes.withElse no = t at h
  induction h generalizing no with
  | done hend =>
    subst ht
    exact ⟨no, _, .done fun hno => hend (isOpen_withElse hyes hno), .done hend⟩
  | @more _ more _ _ _ _ _ ht' hafter hread hmore hrest ih =>
    subst ht
    cases hno : no.isOpen with
    | true =>
      obtain ⟨no', w, habsorbs, hrest⟩ := ih (withElse_withElse hyes hno).symm
      exact ⟨no', w, .more hno hafter hread hmore habsorbs, hrest⟩
    | false =>
      exact ⟨no, _, .done fun hopen => absurd (hno.symm.trans hopen) Bool.false_ne_true, .more ht' hafter hread hmore hrest⟩

end Absorbs

/-! ## The texts of a statement -/

/-- A statement, or the statements up to a closing brace. -/
inductive Item where
  | statement (s : Shape)
  | body (body : List Shape)

/-- A branch in braces; another statement as it is. -/
def Shape.braced (s : Shape) : Shape := if s.isBranch then .block [s] else s

/-- A text of a statement, with some space between its tokens. A branch that an `else` follows stands in braces. -/
inductive Spells : Item → List Char → Prop
  | empty : Spells (.statement .empty) [';']
  | expression {text : String} : Spells (.statement (.expression text)) (text.toList ++ [';'])
  | block {body : List Shape} {cs : List Char} : Spells (.body body) cs → Spells (.statement (.block body)) ('\x7b' :: cs)
  | branch {test : String} {yes : Shape} {g cs : List Char} : IsGap g → Spells (.statement yes) cs →
    Spells (.statement (.branch test yes)) (headed "if" test (g ++ cs))
  | choice {test : String} {yes no : Shape} {g g' g'' cs ds : List Char} : IsGap g → IsGap g' → IsGap g'' →
    Spells (.statement yes.braced) cs → Spells (.statement no) ds →
    Spells (.statement (.choice test yes no)) (headed "if" test (g ++ (cs ++ (g' ++ ("else".toList ++ (g'' ++ ds))))))
  | loop {word : LoopWord} {head : String} {body : Shape} {g cs : List Char} : IsGap g → Spells (.statement body) cs →
    Spells (.statement (.loop word head body)) (headed word.text head (g ++ cs))
  | doLoop {test : String} {body : Shape} {g g' cs : List Char} : IsGap g → IsGap g' → Spells (.statement body) cs →
    Spells (.statement (.doLoop body test)) ("do".toList ++ (g ++ (cs ++ (g' ++ headed "while" test [';']))))
  | labelled {name : String} {body : Shape} {cs : List Char} : Spells (.statement body) cs →
    Spells (.statement (.labelled name body)) (name.toList ++ (": ".toList ++ cs))
  | gap {body : List Shape} {g cs : List Char} : IsGap g → Spells (.body body) cs → Spells (.body body) (g ++ cs)
  | last : Spells (.body []) ['\x7d']
  | next {s : Shape} {body : List Shape} {cs ds : List Char} : Spells (.statement s) cs → Spells (.body body) ds →
    Spells (.body (s :: body)) (cs ++ ds)

def Item.parts : Item → List Shape
  | statement s => s.parts
  | body ss => Shape.partsEach ss

/-- What is not mistaken for an item. -/
def Item.stops : Item → List Token
  | statement _ => [.sign "\x7d", .word "else"]
  | body _ => [.word "else"]

/-- How a text is read as an item, whatever is behind it. -/
def Item.IsReadOf (A : Alphabet) (scan : Scan) (cs : List Char) : Item → Prop
  | .statement s => ∀ u r rest, Absorbs A scan s.reread u r rest → ReadsAs A scan (cs ++ u) r rest
  | .body ss => ∀ u, ReadsBody A scan (cs ++ u) (ss.map Shape.reread) u

namespace Spells

open Shape

variable {A : Alphabet} {scan : Scan} {item : Item} {cs u : List Char} {s : Shape} {t : Token}

theorem headed_append (word text : String) (inner u : List Char) : headed word text inner ++ u = headed word text (inner ++ u) := by
  simp [headed]

theorem mem_stops (ht : t ∈ item.stops) : t ∈ [.sign "\x7d", .word "else"] := by
  cases item with
  | statement => exact ht
  | body => exact List.mem_cons_of_mem _ ht

theorem stop_mem_statementTokens (ht : t ∈ item.stops) : t ∈ statementTokens := by
  have hall : ∀ t ∈ [.sign "\x7d", .word "else"], t ∈ statementTokens := by decide
  exact hall t (mem_stops ht)

theorem stops_of_token {rest : List Char} (ht : t ∈ item.stops) (known : Token × Start) (hknown : known ∈ startTokens)
    (h : A.after? known.1 cs = some rest) : A.after? t cs = none := by
  have hne : ∀ known ∈ startTokens, ∀ t ∈ [.sign "\x7d", .word "else"], known.1 ≠ t := by decide
  exact after?_other (mem_statementTokens hknown) (stop_mem_statementTokens ht) h (hne _ hknown t (mem_stops ht))

theorem stops_headed {word text : String} {inner : List Char} (ht : t ∈ item.stops) (start : Start)
    (hword : (.word word, start) ∈ startTokens) : A.after? t (headed word text inner ++ u) = none := by
  rw [headed_append]
  exact stops_of_token ht _ hword (after?_spaced (g := [' ']) (mem_statementTokens hword) isGap_space)

/-- The text of an item begins neither with `else` nor, where it is that of a statement, with a closing brace. -/
theorem stops (h : Spells item cs) (hworded : ∀ p ∈ item.parts, p.Worded A) (ht : t ∈ item.stops) :
    A.after? t (cs ++ u) = none := by
  induction h generalizing u with
  | empty => exact stops_of_token ht (.sign ";", .semicolon) (by decide) (after?_sign ";" (by decide))
  | @expression text =>
    rw [List.append_assoc]
    exact (hworded _ (List.mem_cons_self ..) u).1 t (stop_mem_statementTokens ht)
  | block => exact stops_of_token ht (.sign "\x7b", .brace) (by decide) (after?_sign "\x7b" (by decide))
  | branch => exact stops_headed ht .ifWord (by decide)
  | choice => exact stops_headed ht .ifWord (by decide)
  | @loop word => exact stops_headed ht (.loop word) (by cases word <;> decide)
  | doLoop hg =>
    rw [List.append_assoc, List.append_assoc]
    exact stops_of_token ht (.word "do", .doWord) (by decide) (after?_spaced (t := .word "do") (by decide) hg)
  | labelled =>
    obtain ⟨hname, hreserved⟩ := hworded _ (List.mem_cons_self ..)
    rw [List.append_assoc, List.append_assoc]
    exact after?_label (stop_mem_statementTokens ht) hname hreserved (by rintro _ ⟨⟩; rfl)
  | gap hg _ ih =>
    rw [List.append_assoc, after?_gap hg]
    exact ih hworded ht
  | last =>
    obtain rfl := List.mem_singleton.1 ht
    exact after?_other (t := .sign "\x7d") (by decide) (by decide) (after?_sign "\x7d" (by decide)) (by decide)
  | next _ _ ih _ =>
    rw [List.append_assoc]
    exact ih (fun p hp => hworded p (List.mem_append_left _ hp)) (List.mem_cons_of_mem _ ht)

/-! ## What is read of a text -/

theorem reread_choice (test : String) (yes no : Shape) : (Shape.choice test yes no).reread =
    if yes.braced.reread.isOpen then .branch test (yes.braced.reread.withElse no.reread)
    else .choice test yes.braced.reread no.reread := by
  rw [reread, braced]
  split <;> rfl

theorem parts_braced (s : Shape) : ∀ p ∈ s.braced.parts, p ∈ s.parts ∨ p = .block [s] := by
  intro p hp
  rw [braced] at hp
  split at hp
  · rw [Shape.parts, partsEach_eq_flatMap, List.flatMap_singleton] at hp
    exact (List.mem_cons.1 hp).symm
  · exact .inl hp

/-- Reading on behind what an `if` leads to. -/
theorem reads_if {test : String} {inner w rest : List Char} {yes r : Shape} (htest : Finds scan ')' test)
    (hyes : ReadsAs A scan inner yes w) (hcases : (A.after? (.word "else") w = none ∧ r = .branch test yes ∧ rest = w) ∨
      ∃ v no, A.after? (.word "else") w = some v ∧ ReadsAs A scan v no rest ∧ r = .choice test yes no) :
    ReadsAs A scan (headed "if" test inner) r rest := by
  rcases hcases with ⟨helse, rfl, rfl⟩ | ⟨v, no, helse, hno, rfl⟩
  · exact reads_branch htest hyes helse
  · exact reads_choice htest hyes helse hno

/-- **What is read of a text that spells a statement** is the statement reread, with every `else` that it takes from
behind. By induction over the text. -/
theorem reads (h : Spells item cs) (hreadable : ∀ p ∈ item.parts, p.Worded A ∧ p.FoundBy scan) : item.IsReadOf A scan cs := by
  induction h with
  | empty =>
    intro u r rest h
    obtain ⟨rfl, rfl⟩ := h.of_closed rfl
    exact reads_empty
  | @expression text =>
    intro u r rest h
    obtain ⟨rfl, rfl⟩ := h.of_closed rfl
    obtain ⟨hworded, hfound⟩ := hreadable _ (List.mem_cons_self ..)
    rw [List.append_assoc]
    exact reads_expression hworded hfound
  | @block body cs _ ih =>
    intro u r rest h
    obtain ⟨rfl, rfl⟩ := h.of_closed rfl
    rw [reread, rereadEach_eq_map]
    exact reads_block (ih (fun p hp => hreadable p (List.mem_cons_of_mem _ hp)) _)
  | @branch test yes g cs hg _ ih =>
    intro u r rest h
    obtain ⟨yes', w, habsorbs, hcases⟩ := h.branch
    have hyes := ih (fun p hp => hreadable p (List.mem_cons_of_mem _ hp)) u yes' w habsorbs
    rw [headed_append, List.append_assoc]
    exact reads_if (hreadable _ (List.mem_cons_self ..)).2 (hyes.gap hg) hcases
  | @choice test yes no g g' g'' cs ds hg hg' hg'' _ _ ihyes ihno =>
    intro u r rest h
    have htest : Finds scan ')' test := (hreadable _ (List.mem_cons_self ..)).2
    have hyesRead := ihyes fun p hp => (parts_braced yes p hp).elim
      (fun hp => hreadable p (List.mem_cons_of_mem _ (List.mem_append_left _ hp))) fun hp => hp ▸ ⟨trivial, trivial⟩
    have hnoRead := ihno fun p hp => hreadable p (List.mem_cons_of_mem _ (List.mem_append_right _ hp))
    have helse : A.after? (.word "else") (g' ++ ("else".toList ++ (g'' ++ (ds ++ u)))) = some (g'' ++ (ds ++ u)) := by
      rw [after?_gap hg']
      exact after?_spaced (t := .word "else") (by decide) hg''
    rw [headed_append]
    simp only [List.append_assoc]
    rw [reread_choice] at h
    split at h
    · next hopen =>
      -- the `else` is taken by a branch inside, and what is behind it takes what it can first
      obtain ⟨yes', w, habsorbs, hcases⟩ := h.branch
      obtain ⟨no', w', hno, hyes⟩ := habsorbs.split hopen
      have hread := hyesRead _ yes' w (.more hopen helse ((hnoRead u no' w' hno).gap hg'') hno.final hyes)
      exact reads_if htest (hread.gap hg) hcases
    · next hclosed =>
      obtain ⟨no', rfl, hno⟩ := h.inside (f := .choice test yes.braced.reread) (fun _ => rfl) fun _ _ => rfl
      have hread := hyesRead (g' ++ ("else".toList ++ (g'' ++ (ds ++ u)))) _ _ (.done fun hopen => absurd hopen hclosed)
      exact reads_choice htest (hread.gap hg) helse ((hnoRead u no' rest hno).gap hg'')
  | @loop word head body g cs hg _ ih =>
    intro u r rest h
    obtain ⟨body', rfl, habsorbs⟩ := h.inside (f := .loop word head) (fun _ => rfl) fun _ _ => rfl
    have hbody := ih (fun p hp => hreadable p (List.mem_cons_of_mem _ hp)) u body' rest habsorbs
    rw [headed_append, List.append_assoc]
    exact reads_loop (hreadable _ (List.mem_cons_self ..)).2 (hbody.gap hg)
  | @doLoop test body g g' cs hg hg' _ ih =>
    intro u r rest h
    obtain ⟨rfl, rfl⟩ := h.of_closed rfl
    have hwhile : A.after? (.word "else") (g' ++ headed "while" test (';' :: rest)) = none := by
      rw [after?_gap hg']
      exact after?_other (t := .word "while") (by decide) (by decide)
        (after?_spaced (t := .word "while") (g := [' ']) (by decide) isGap_space) (by decide)
    have hbody := ih (fun p hp => hreadable p (List.mem_cons_of_mem _ hp)) _ _ _ (.done fun _ => hwhile)
    simp only [List.append_assoc, headed_append]
    exact reads_doLoop hg hg' (hreadable _ (List.mem_cons_self ..)).2 hbody
  | @labelled name body cs _ ih =>
    intro u r rest h
    obtain ⟨body', rfl, habsorbs⟩ := h.inside (f := .labelled name) (fun _ => rfl) fun _ _ => rfl
    have hbody := ih (fun p hp => hreadable p (List.mem_cons_of_mem _ hp)) u body' rest habsorbs
    obtain ⟨hname, hreserved⟩ := (hreadable _ (List.mem_cons_self ..)).1
    simp only [List.append_assoc]
    exact reads_labelled hname hreserved hbody
  | gap hg _ ih =>
    intro u
    rw [List.append_assoc]
    exact (ih hreadable u).gap hg
  | last => exact fun u => readsBody_nil
  | @next s body cs ds hs hbody ihs ihbody =>
    intro u
    have hsReadable : ∀ p ∈ s.parts, p.Worded A ∧ p.FoundBy scan := fun p hp => hreadable p (List.mem_append_left _ hp)
    have hbodyReadable : ∀ p ∈ partsEach body, p.Worded A ∧ p.FoundBy scan := fun p hp =>
      hreadable p (List.mem_append_right _ hp)
    have hend := hs.stops (fun p hp => (hsReadable p hp).1) (List.mem_cons_self ..) (u := ds ++ u)
    have helse := hbody.stops (fun p hp => (hbodyReadable p hp).1) (List.mem_singleton_self _) (u := u)
    have hread := ihs hsReadable (ds ++ u) _ _ (.done fun _ => helse)
    rw [List.append_assoc]
    exact readsBody_cons hend hread (ihbody hbodyReadable u)

/-- A whole text that spells a statement is read as the statement reread. -/
theorem readShape {text : String} (h : Spells (.statement s) text.toList)
    (hreadable : ∀ p ∈ s.parts, p.Worded A ∧ p.FoundBy scan) : A.readShape scan text = some s.reread := by
  have hread := h.reads hreadable [] s.reread [] (.done fun _ => after?_nil (by decide))
  rw [List.append_nil] at hread
  rw [Alphabet.readShape, hread.reads _ (Nat.lt_succ_self _)]
  rfl

end Spells

end ScriptTrace
