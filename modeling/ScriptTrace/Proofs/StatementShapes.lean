import Mathlib.Data.List.Basic

/-!
# How statements are nested

Branches, loops, labels and blocks, with the texts of their tests, heads and expressions as they are. An `else` is read
as that of the nearest `if` before it that has none, so a branch may come out of its text with the `else` of another one
around it.

* `Shape` : the nesting of a statement; `Shape.plain` : without the blocks around single statements;
* `Shape.isOpen`, `Shape.withElse` : a statement that takes an `else` behind it, and what it then is;
* `Shape.reread` : what is read where a branch stands in braces only if it is itself what an `else` belongs to;
* `Shape.isSettled`, `Shape.plain_reread_iff` : the statements that are read as they are nested.
-/

namespace ScriptTrace

/-- The words that loops with a head begin with. -/
inductive LoopWord where
  | whileWord
  | forWord
  deriving DecidableEq, Repr

def LoopWord.text : LoopWord → String
  | whileWord => "while"
  | forWord => "for"

/-- How a statement is nested. -/
inductive Shape where
  | empty
  | expression (text : String)
  | block (body : List Shape)
  /-- An `if` without an `else`. -/
  | branch (test : String) (yes : Shape)
  | choice (test : String) (yes no : Shape)
  | loop (word : LoopWord) (head : String) (body : Shape)
  | doLoop (body : Shape) (test : String)
  | labelled (name : String) (body : Shape)
  deriving Repr

namespace Shape

@[induction_eliminator]
theorem ind {motive : Shape → Prop} (empty : motive .empty) (expression : ∀ text, motive (.expression text))
    (block : ∀ body, (∀ s ∈ body, motive s) → motive (.block body))
    (branch : ∀ test yes, motive yes → motive (.branch test yes))
    (choice : ∀ test yes no, motive yes → motive no → motive (.choice test yes no))
    (loop : ∀ word head body, motive body → motive (.loop word head body))
    (doLoop : ∀ body test, motive body → motive (.doLoop body test))
    (labelled : ∀ name body, motive body → motive (.labelled name body)) (s : Shape) : motive s :=
  @Shape.rec motive (fun body => ∀ s ∈ body, motive s) empty expression block branch choice loop doLoop labelled
    (List.forall_mem_nil _) (fun _ _ hs hbody => List.forall_mem_cons.2 ⟨hs, hbody⟩) s

/-! ## Nesting -/

def isBranch : Shape → Bool
  | branch _ _ | choice _ _ _ => true
  | _ => false

/-- Whether an `else` right behind the statement belongs to a branch in it. -/
def isOpen : Shape → Bool
  | branch _ _ => true
  | choice _ _ no => no.isOpen
  | loop _ _ body => body.isOpen
  | labelled _ body => body.isOpen
  | _ => false

/-- An open statement with an `else`, which belongs to the last branch in it that has none. -/
def withElse : Shape → Shape → Shape
  | branch test yes, no => if yes.isOpen then branch test (yes.withElse no) else choice test yes no
  | choice test yes last, no => choice test yes (last.withElse no)
  | loop word head body, no => loop word head (body.withElse no)
  | labelled name body, no => labelled name (body.withElse no)
  | s, _ => s

mutual

/-- What is read of a statement that is printed. Braces are put around a branch that an `else` follows; a branch
further inside, at the end of a loop or of a label, takes the `else`. -/
def reread : Shape → Shape
  | empty => empty
  | expression text => expression text
  | block body => block (rereadEach body)
  | branch test yes => branch test yes.reread
  | choice test yes no =>
    if yes.isBranch then choice test (block [yes.reread]) no.reread
    else if yes.reread.isOpen then branch test (yes.reread.withElse no.reread)
    else choice test yes.reread no.reread
  | loop word head body => loop word head body.reread
  | doLoop body test => doLoop body.reread test
  | labelled name body => labelled name body.reread

def rereadEach : List Shape → List Shape
  | [] => []
  | s :: body => s.reread :: rereadEach body

end

/-- Statements in braces; a single one stands for itself. -/
def unwrapped : List Shape → Shape
  | [s] => s
  | body => block body

mutual

/-- A statement without the blocks around single statements. -/
def plain : Shape → Shape
  | empty => empty
  | expression text => expression text
  | block body => unwrapped (plainEach body)
  | branch test yes => branch test yes.plain
  | choice test yes no => choice test yes.plain no.plain
  | loop word head body => loop word head body.plain
  | doLoop body test => doLoop body.plain test
  | labelled name body => labelled name body.plain

def plainEach : List Shape → List Shape
  | [] => []
  | s :: body => s.plain :: plainEach body

end

mutual

/-- A statement and all in it, in the order of the text. -/
def parts : Shape → List Shape
  | empty => [empty]
  | expression text => [expression text]
  | block body => block body :: partsEach body
  | branch test yes => branch test yes :: yes.parts
  | choice test yes no => choice test yes no :: (yes.parts ++ no.parts)
  | loop word head body => loop word head body :: body.parts
  | doLoop body test => doLoop body test :: body.parts
  | labelled name body => labelled name body :: body.parts

def partsEach : List Shape → List Shape
  | [] => []
  | s :: body => s.parts ++ partsEach body

end

/-- Whether a branch with an `else` is read with it: what stands in between is put in braces, or takes no `else`. -/
def keepsElse : Shape → Bool
  | choice _ yes _ => yes.isBranch || !yes.isOpen
  | _ => true

/-- Whether all branches in a statement are read with their `else`. -/
def isSettled (s : Shape) : Bool := s.parts.all keepsElse

/-- Whether a branch has an `else`. -/
def hasElse? : Shape → Option Bool
  | branch _ _ => some false
  | choice _ _ _ => some true
  | _ => none

/-- Which branches in a statement have an `else`, in the order of the text. -/
def elses (s : Shape) : List Bool := s.parts.filterMap hasElse?

variable {s no more : Shape} {body : List Shape}

@[simp] theorem rereadEach_eq_map (body : List Shape) : rereadEach body = body.map reread := by
  induction body with
  | nil => rfl
  | cons s body ih => rw [rereadEach, ih, List.map_cons]

@[simp] theorem plainEach_eq_map (body : List Shape) : plainEach body = body.map plain := by
  induction body with
  | nil => rfl
  | cons s body ih => rw [plainEach, ih, List.map_cons]

@[simp] theorem partsEach_eq_flatMap (body : List Shape) : partsEach body = body.flatMap parts := by
  induction body with
  | nil => rfl
  | cons s body ih => rw [partsEach, ih, List.flatMap_cons]

/-! ## What an `else` is added to -/

theorem isOpen_withElse (hs : s.isOpen = true) (hno : no.isOpen = true) : (s.withElse no).isOpen = true := by
  induction s with
  | branch test yes ih =>
    rw [withElse]
    split
    · rfl
    · exact hno
  | choice test yes last _ ih => exact ih hs
  | loop word head body ih => exact ih hs
  | labelled name body ih => exact ih hs
  | _ => cases hs

/-- A second `else` belongs to a branch in what the first one leads to, if there is one without. -/
theorem withElse_withElse (hs : s.isOpen = true) (hno : no.isOpen = true) :
    (s.withElse no).withElse more = s.withElse (no.withElse more) := by
  induction s with
  | branch test yes ih =>
    rw [withElse, withElse]
    split
    · next hyes => rw [withElse, if_pos (isOpen_withElse hyes hno), ih hyes]
    · rfl
  | choice test yes last _ ih => simp only [withElse, ih hs]
  | loop word head body ih => simp only [withElse, ih hs]
  | labelled name body ih => simp only [withElse, ih hs]
  | _ => cases hs

/-! ## Which branches have an `else` -/

@[simp] theorem elses_branch (test : String) (yes : Shape) : (branch test yes).elses = false :: yes.elses := rfl

@[simp] theorem elses_choice (test : String) (yes no : Shape) :
    (choice test yes no).elses = true :: (yes.elses ++ no.elses) := by
  simp [elses, parts, hasElse?]

@[simp] theorem elses_loop (word : LoopWord) (head : String) (body : Shape) : (loop word head body).elses = body.elses := rfl

@[simp] theorem elses_doLoop (body : Shape) (test : String) : (doLoop body test).elses = body.elses := rfl

@[simp] theorem elses_labelled (name : String) (body : Shape) : (labelled name body).elses = body.elses := rfl

@[simp] theorem elses_block (body : List Shape) : (block body).elses = body.flatMap elses := by
  rw [elses, parts, partsEach_eq_flatMap, List.filterMap_cons_none rfl, List.filterMap_flatMap]
  rfl

theorem elses_unwrapped (body : List Shape) : (unwrapped body).elses = body.flatMap elses := by
  unfold unwrapped
  split <;> simp

/-- Blocks around single statements make no difference to the branches. -/
theorem elses_plain (s : Shape) : s.plain.elses = s.elses := by
  induction s with
  | block body ih =>
    rw [plain, plainEach_eq_map, elses_unwrapped, List.flatMap_map, elses_block]
    exact List.flatMap_congr ih
  | branch test yes ih => rw [plain, elses_branch, elses_branch, ih]
  | choice test yes no ihyes ihno => rw [plain, elses_choice, elses_choice, ihyes, ihno]
  | loop word head body ih => rw [plain, elses_loop, elses_loop, ih]
  | doLoop body test ih => rw [plain, elses_doLoop, elses_doLoop, ih]
  | labelled name body ih => rw [plain, elses_labelled, elses_labelled, ih]
  | _ => rfl

theorem length_elses_withElse (hs : s.isOpen = true) : (s.withElse no).elses.length = s.elses.length + no.elses.length := by
  induction s with
  | branch test yes ih =>
    rw [withElse]
    split
    · next hyes => rw [elses_branch, elses_branch, List.length_cons, List.length_cons, ih hyes, Nat.add_right_comm]
    · rw [elses_choice, elses_branch, List.length_cons, List.length_append, List.length_cons, Nat.add_right_comm]
  | choice test yes last _ ih =>
    rw [withElse, elses_choice, elses_choice, List.length_cons, List.length_append, ih hs, List.length_cons, List.length_append]
    omega
  | loop word head body ih => exact ih hs
  | labelled name body ih => exact ih hs
  | _ => cases hs

/-- No branch is lost or added. -/
theorem length_elses_reread (s : Shape) : s.reread.elses.length = s.elses.length := by
  induction s with
  | block body ih =>
    rw [reread, rereadEach_eq_map, elses_block, elses_block, List.flatMap_map, List.length_flatMap, List.length_flatMap]
    exact congrArg List.sum (List.map_congr_left ih)
  | branch test yes ih => rw [reread, elses_branch, elses_branch, List.length_cons, List.length_cons, ih]
  | choice test yes no ihyes ihno =>
    have hlength : (choice test yes no).elses.length = yes.reread.elses.length + no.reread.elses.length + 1 := by
      rw [elses_choice, List.length_cons, List.length_append, ihyes, ihno]
    rw [hlength, reread]
    split
    · simp
    · split
      · next hopen => rw [elses_branch, List.length_cons, length_elses_withElse hopen]
      · rw [elses_choice, List.length_cons, List.length_append]
  | loop word head body ih => exact ih
  | doLoop body test ih => exact ih
  | labelled name body ih => exact ih
  | _ => rfl

/-! ## Settled statements -/

theorem isSettled_choice (test : String) (yes no : Shape) :
    (choice test yes no).isSettled = ((yes.isBranch || !yes.isOpen) && (yes.isSettled && no.isSettled)) := by
  simp [isSettled, parts, keepsElse]

theorem isSettled_block : (block body).isSettled = true ↔ ∀ s ∈ body, s.isSettled = true := by
  simp only [isSettled, parts, partsEach_eq_flatMap, List.all_cons, keepsElse, Bool.true_and, List.all_flatMap, List.all_eq_true]

/-- A settled statement is read as it is nested, and is open if it was. -/
theorem reread_of_settled (h : s.isSettled = true) : s.reread.plain = s.plain ∧ s.reread.isOpen = s.isOpen := by
  induction s with
  | block body ih =>
    refine ⟨?_, rfl⟩
    rw [reread, rereadEach_eq_map, plain, plain, plainEach_eq_map, plainEach_eq_map, List.map_map]
    exact congrArg unwrapped (List.map_congr_left fun s hs => (ih s hs (isSettled_block.1 h s hs)).1)
  | branch test yes ih => exact ⟨congrArg (branch test) (ih h).1, rfl⟩
  | choice test yes no ihyes ihno =>
    rw [isSettled_choice, Bool.and_eq_true, Bool.and_eq_true] at h
    obtain ⟨hkeeps, hyes, hno⟩ := h
    obtain ⟨hyesPlain, hyesOpen⟩ := ihyes hyes
    obtain ⟨hnoPlain, hnoOpen⟩ := ihno hno
    rw [reread]
    split
    · exact ⟨congrArg₂ (choice test) hyesPlain hnoPlain, hnoOpen⟩
    · next hbranch =>
      have hclosed : yes.reread.isOpen = false := by
        rw [hyesOpen]
        simpa [Bool.eq_false_iff.2 hbranch] using hkeeps
      rw [hclosed, if_neg Bool.false_ne_true]
      exact ⟨congrArg₂ (choice test) hyesPlain hnoPlain, hnoOpen⟩
  | loop word head body ih => exact ⟨congrArg (loop word head) (ih h).1, (ih h).2⟩
  | doLoop body test ih => exact ⟨congrArg (doLoop · test) (ih h).1, rfl⟩
  | labelled name body ih => exact ⟨congrArg (labelled name) (ih h).1, (ih h).2⟩
  | _ => exact ⟨rfl, rfl⟩

/-- Lists of equal lengths, one after the other, are the same only if each is. -/
theorem forall_of_flatMap_eq {α : Type} {f g : Shape → List α} (hlength : ∀ s ∈ body, (f s).length = (g s).length)
    (h : body.flatMap f = body.flatMap g) : ∀ s ∈ body, f s = g s := by
  induction body with
  | nil => nofun
  | cons s body ih =>
    obtain ⟨hs, hbody⟩ := List.append_inj h (hlength s (List.mem_cons_self ..))
    exact List.forall_mem_cons.2 ⟨hs, ih (fun s hs => hlength s (List.mem_cons_of_mem _ hs)) hbody⟩

/-- A statement in which the same branches have an `else` when it is read is settled. -/
theorem settled_of_elses (h : s.reread.elses = s.elses) : s.isSettled = true := by
  induction s with
  | block body ih =>
    rw [reread, rereadEach_eq_map, elses_block, elses_block, List.flatMap_map] at h
    exact isSettled_block.2 fun s hs => ih s hs (forall_of_flatMap_eq (fun s _ => length_elses_reread s) h s hs)
  | branch test yes ih => exact ih (List.cons.inj h).2
  | choice test yes no ihyes ihno =>
    have hparts (h : yes.reread.elses ++ no.reread.elses = yes.elses ++ no.elses) :
        yes.isSettled = true ∧ no.isSettled = true := by
      obtain ⟨hyes, hno⟩ := List.append_inj h (length_elses_reread yes)
      exact ⟨ihyes hyes, ihno hno⟩
    rw [isSettled_choice, Bool.and_eq_true, Bool.and_eq_true]
    rw [reread, elses_choice] at h
    split at h
    · next hbranch =>
      rw [elses_choice, elses_block, List.flatMap_singleton] at h
      exact ⟨by rw [hbranch, Bool.true_or], hparts (List.cons.inj h).2⟩
    · split at h
      · -- the `if` around has lost its `else`
        rw [elses_branch] at h
        cases (List.cons.inj h).1
      · next hclosed =>
        rw [elses_choice] at h
        obtain ⟨hyes, hno⟩ := hparts (List.cons.inj h).2
        rw [(reread_of_settled hyes).2] at hclosed
        exact ⟨by rw [Bool.eq_false_iff.2 hclosed, Bool.not_false, Bool.or_true], hyes, hno⟩
  | loop word head body ih => exact ih h
  | doLoop body test ih => exact ih h
  | labelled name body ih => exact ih h
  | _ => rfl

/-- **The statements that are read as they are nested**, up to blocks around single statements, are the settled ones. -/
theorem plain_reread_iff (s : Shape) : s.reread.plain = s.plain ↔ s.isSettled = true := by
  refine ⟨fun h => settled_of_elses ?_, fun h => (reread_of_settled h).1⟩
  rw [← elses_plain, h, elses_plain]

end Shape

end ScriptTrace
