import ScriptTrace.Proofs.ExpressionGrammar
import ScriptTrace.Syntax.Precedence

/-!
# Rules for tighter and looser expressions

An expression that is read from the front of some tokens ends where the tokens behind it cannot go on with it.
Which tokens these are depends on the rule of the grammar: behind an operand of a product an operator of a sum
may stand, but no other factor.

* `continues` : how tightly what a token goes on with binds; `Stops` : tokens that end what a rule reads;
* `Syntax.closers` : tokens that no expression begins with;
* `Syntax.readAt` : the rules of the grammar by their precedence;
* `Syntax.readAt_lift` : what a tighter rule reads is read by every looser one.
-/

namespace ScriptTrace

open Syntax

/-! ## What goes on with an expression -/

/-- The precedence of what arises when the token goes on with an expression before it. -/
def continues (t : Token) : Option Precedence :=
  if t = .sign "," then some .sequence
  else if t = .sign "?" then some .conditional
  else if t = .sign "(" ∨ t = .sign "[" ∨ t = .sign "." then some .call
  else ((t.operator? AssignOperator.all AssignOperator.token).map fun _ => Precedence.assign).or
    (((t.operator? BinaryOperator.all BinaryOperator.token).map level).or
      ((t.operator? UpdateOperator.all UpdateOperator.token).map fun _ => Precedence.postfixOp))

/-- The tokens do not go on with what binds at least so tightly. -/
def Stops (p : Precedence) (rest : List Token) : Prop := ∀ t ∈ rest.head?, ∀ q, continues t = some q → q < p

theorem Stops.mono {p q : Precedence} {rest : List Token} (h : Stops p rest) (hle : p ≤ q) : Stops q rest :=
  fun t ht r hr => Nat.lt_of_lt_of_le (h t ht r hr) hle

theorem Stops.cons {p q : Precedence} {t : Token} (ht : continues t = some q) (hq : q < p) (rest : List Token) :
    Stops p (t :: rest) := fun u hu r hr => by
  cases hu
  cases ht.symm.trans hr
  exact hq

theorem Stops.none {p : Precedence} {t : Token} (ht : continues t = .none) (rest : List Token) : Stops p (t :: rest) :=
  fun u hu r hr => by
    cases hu
    cases ht.symm.trans hr

theorem Stops.nil {p : Precedence} : Stops p [] := fun _ ht => by cases ht

section Operators

variable {α : Type} {all : List α} {token : α → Token} {t : Token} {operator : α}

theorem Token.token_of_operator? (h : t.operator? all token = some operator) : token operator = t := by
  simpa using List.find?_some h

end Operators

theorem unaryOperator (operator : UnaryOperator) :
    operator.token.operator? UnaryOperator.all UnaryOperator.token = some operator := by
  cases operator <;> rfl

theorem updateOperator (operator : UpdateOperator) :
    operator.token.operator? UpdateOperator.all UpdateOperator.token = some operator := by
  cases operator <;> rfl

theorem binaryOperator (operator : BinaryOperator) :
    operator.token.operator? BinaryOperator.all BinaryOperator.token = some operator := by
  cases operator <;> rfl

theorem assignOperator (operator : AssignOperator) :
    operator.token.operator? AssignOperator.all AssignOperator.token = some operator := by
  cases operator <;> rfl

theorem continues_update (operator : UpdateOperator) : continues operator.token = some .postfixOp := by
  cases operator <;> rfl

theorem continues_binary (operator : BinaryOperator) : continues operator.token = some (level operator) := by
  cases operator <;> rfl

theorem continues_assign (operator : AssignOperator) : continues operator.token = some .assign := by
  cases operator <;> rfl

namespace Stops

variable {p : Precedence} {t : Token} {rest : List Token}

theorem noUpdate (h : Stops p (t :: rest)) (hp : p ≤ .postfixOp) :
    t.operator? UpdateOperator.all UpdateOperator.token = .none := by
  cases hop : t.operator? UpdateOperator.all UpdateOperator.token with
  | none => rfl
  | some operator =>
    have hlt := h t rfl _ (Token.token_of_operator? hop ▸ continues_update operator)
    exact absurd hp (Nat.not_le_of_lt hlt)

theorem binaryLevel (h : Stops p (t :: rest)) {operator : BinaryOperator}
    (hop : t.operator? BinaryOperator.all BinaryOperator.token = some operator) : level operator < p :=
  h t rfl _ (Token.token_of_operator? hop ▸ continues_binary operator)

theorem noAssign (h : Stops p (t :: rest)) (hp : p ≤ .assign) :
    t.operator? AssignOperator.all AssignOperator.token = .none := by
  cases hop : t.operator? AssignOperator.all AssignOperator.token with
  | none => rfl
  | some operator =>
    have hlt := h t rfl _ (Token.token_of_operator? hop ▸ continues_assign operator)
    exact absurd hp (Nat.not_le_of_lt hlt)

/-- A token that goes on with what binds so tightly does not stand there. -/
theorem ne {q : Precedence} {u : Token} (h : Stops p (t :: rest)) (hu : continues u = some q) (hq : p ≤ q) : t ≠ u := by
  rintro rfl
  exact absurd hq (Nat.not_le_of_lt (h t rfl q hu))

end Stops

/-! ## From tighter rules to looser ones -/

namespace Syntax

variable {inner : Readers}

theorem leftHand_of_head {calls : Bool} {ts rest : List Token} {e : Expression} (h : head inner ts = some (e, rest)) :
    leftHand inner calls ts = suffixes inner calls e rest := by
  rw [leftHand, h]
  rfl

theorem suffixes_stop {e : Expression} {rest : List Token} (h : Stops .call rest) : suffixes inner true e rest = some (e, rest) := by
  cases rest with
  | nil => simp [suffixes]
  | cons t rest =>
    have hpoint := h.ne (u := .sign ".") rfl (Nat.le_refl _)
    have hbracket := h.ne (u := .sign "[") rfl (Nat.le_refl _)
    have hparen := h.ne (u := .sign "(") rfl (Nat.le_refl _)
    rw [suffixes.eq_def]
    split
    · next heq => cases heq; exact absurd rfl hpoint
    · next heq => cases heq; exact absurd rfl hbracket
    · next heq => cases heq; exact absurd rfl hparen
    · rfl

theorem binaryMore_stop {rule : Nat} {e : Expression} {rest : List Token} (h : Stops rule rest) :
    binaryMore inner rule e rest = some (e, rest) := by
  cases rest with
  | nil => rw [binaryMore]
  | cons t rest =>
    rw [binaryMore]
    cases hop : t.operator? BinaryOperator.all BinaryOperator.token with
    | none => rfl
    | some operator => simp [Nat.ne_of_lt (h.binaryLevel hop)]

theorem moreItems_stop {rest : List Token} (h : Stops .sequence rest) : moreItems inner rest = some ([], rest) := by
  rw [moreItems.eq_def]
  split
  · exact absurd rfl (h.ne (u := .sign ",") rfl (Nat.le_refl _))
  · rfl

/-! ### Tokens that no expression begins with -/

/-- Signs that end a list or stand before an element. -/
def closers : List Token := [.sign ")", .sign "]", .sign ",", .sign "..."]

/-- Tokens that no operand of an operator begins with: besides the closers, operators before an operand. -/
theorem leftHand_none {t : Token} (ht : t ∈ closers ∨ (∃ operator : UnaryOperator, operator.token = t) ∨
    ∃ operator : UpdateOperator, operator.token = t) (calls : Bool) (ts : List Token) : leftHand inner calls (t :: ts) = none := by
  have hhead : head inner (t :: ts) = none := by
    rcases ht with ht | ⟨operator, rfl⟩ | ⟨operator, rfl⟩
    · simp only [closers, List.mem_cons, List.not_mem_nil, or_false] at ht
      rcases ht with rfl | rfl | rfl | rfl
      all_goals simp [head, primary]
    · cases operator
      all_goals simp [head, primary, UnaryOperator.token, reservedWords]
    · cases operator
      all_goals simp [head, primary, UpdateOperator.token]
  rw [leftHand, hhead]
  rfl

theorem noOperators_of_closer {t : Token} (ht : t ∈ closers) :
    t.operator? UnaryOperator.all UnaryOperator.token = none ∧ t.operator? UpdateOperator.all UpdateOperator.token = none := by
  simp only [closers, List.mem_cons, List.not_mem_nil, or_false] at ht
  rcases ht with rfl | rfl | rfl | rfl
  all_goals exact ⟨rfl, rfl⟩

theorem unary_closer {t : Token} (ht : t ∈ closers) (ts : List Token) : unary inner (t :: ts) = none := by
  obtain ⟨hunary, hupdate⟩ := noOperators_of_closer ht
  rw [unary, hunary]
  simp only
  rw [update, hupdate]
  simp only [leftHand_none (.inl ht) true ts]
  rfl

theorem binary_closer {t : Token} (ht : t ∈ closers) (ts : List Token) {n : Nat} (hn : n ≤ 13) :
    binary inner (13 - n) (t :: ts) = none := by
  induction n with
  | zero =>
    rw [binary, if_pos (by decide), power, unary_closer ht]
    rfl
  | succ n ih =>
    rw [binary]
    split
    · rw [power, unary_closer ht]
      rfl
    · next hrule =>
      rw [show 13 - (n + 1) + 1 = 13 - n by omega, ih (by omega)]
      rfl

theorem assignment_closer {t : Token} (ht : t ∈ closers) (ts : List Token) : assignment inner (t :: ts) = none := by
  rw [assignment, conditional, binary_closer ht ts (n := 10) (by decide)]
  rfl

/-! ### The rules by their precedence -/

/-- The rule that reads what binds at least so tightly. -/
def readAt (inner : Readers) (p : Precedence) (ts : List Token) : Option (Expression × List Token) :=
  if p = 0 then expression inner ts
  else if p = 1 then assignment inner ts
  else if p = 2 then conditional inner ts
  else if p ≤ 13 then binary inner p ts
  else if p = 14 then unary inner ts
  else if p = 15 then update inner ts
  else leftHand inner true ts

variable {ts rest : List Token} {e : Expression}

theorem expression_lift (h : assignment inner ts = some (e, rest)) (hrest : Stops 0 rest) : expression inner ts = some (e, rest) := by
  rw [expression, h]
  simp [moreItems_stop hrest, sequenceOf]

theorem assignment_lift (h : conditional inner ts = some (e, rest)) (hrest : Stops 1 rest) : assignment inner ts = some (e, rest) := by
  rw [assignment, h]
  cases rest with
  | nil => rfl
  | cons t rest => simp [hrest.noAssign (Nat.le_refl _)]

theorem conditional_lift (h : binary inner 3 ts = some (e, rest)) (hrest : Stops 2 rest) : conditional inner ts = some (e, rest) := by
  rw [conditional, h]
  simp only [Option.bind_eq_bind, Option.bind_some]
  split
  · exact absurd rfl (hrest.ne (u := .sign "?") rfl (Nat.le_refl _))
  · rfl

theorem binary_lift {rule : Nat} (hrule : rule ≤ 12) (h : binary inner (rule + 1) ts = some (e, rest)) (hrest : Stops rule rest) :
    binary inner rule ts = some (e, rest) := by
  rw [binary, if_neg (Nat.not_lt_of_le hrule), h]
  exact binaryMore_stop hrest

theorem power_lift (h : unary inner ts = some (e, rest)) (hrest : Stops 13 rest) : binary inner 13 ts = some (e, rest) := by
  rw [binary, if_pos (by decide), power, h]
  simp only [Option.bind_eq_bind, Option.bind_some]
  split
  · exact absurd rfl (hrest.ne (u := .sign "**") rfl (Nat.le_refl _))
  · rfl

/-- What is read as an operand begins with no operator. -/
theorem noUnary_of_update (h : update inner ts = some (e, rest)) : beginsUnary ts = false := by
  cases ts with
  | nil => rfl
  | cons t more =>
    rw [beginsUnary]
    cases hop : t.operator? UnaryOperator.all UnaryOperator.token with
    | none => rfl
    | some operator =>
      obtain rfl := Token.token_of_operator? hop
      have hnone : update inner (operator.token :: more) = none := by
        rw [update, leftHand_none (.inr (.inl ⟨operator, rfl⟩))]
        cases operator <;> rfl
      rw [hnone] at h
      cases h

theorem unary_lift (h : update inner ts = some (e, rest)) : unary inner ts = some (e, rest) := by
  have hbegins := noUnary_of_update h
  cases ts with
  | nil => rw [update] at h; cases h
  | cons t more =>
    rw [beginsUnary, Option.isSome_eq_false_iff, Option.isNone_iff_eq_none] at hbegins
    rw [unary, hbegins]
    exact h

theorem update_of_leftHand (h : leftHand inner true ts = some (e, rest)) :
    ∀ t more, ts = t :: more → t.operator? UpdateOperator.all UpdateOperator.token = none := by
  rintro t more rfl
  cases hop : t.operator? UpdateOperator.all UpdateOperator.token with
  | none => rfl
  | some operator =>
    obtain rfl := Token.token_of_operator? hop
    rw [leftHand_none (.inr (.inr ⟨operator, rfl⟩))] at h
    cases h

theorem update_lift (h : leftHand inner true ts = some (e, rest)) (hrest : Stops 15 rest) : update inner ts = some (e, rest) := by
  have hop := update_of_leftHand h
  cases ts with
  | nil => rw [leftHand, head.eq_def] at h; simp [primary] at h
  | cons t more =>
    rw [update, hop t more rfl]
    simp only [h]
    cases rest with
    | nil => rfl
    | cons u rest => simp [hrest.noUpdate (Nat.le_refl _)]

theorem ne_two {p : Precedence} (h : 3 ≤ p) : p ≠ 2 := by
  rintro rfl
  exact absurd h (by decide)

theorem readAt_binary {p : Precedence} (hlow : 3 ≤ p) (hhigh : p ≤ 13) (ts : List Token) : readAt inner p ts = binary inner p ts := by
  rw [readAt, if_neg, if_neg, if_neg, if_pos hhigh]
  · rintro rfl; exact absurd hlow (by decide)
  · rintro rfl; exact absurd hlow (by decide)
  · rintro rfl; exact absurd hlow (by decide)

/-- What a tighter rule reads is read by the next looser one. -/
theorem readAt_succ {p : Precedence} (hp : p < 16) (h : readAt inner (p + 1) ts = some (e, rest)) (hrest : Stops p rest) :
    readAt inner p ts = some (e, rest) := by
  by_cases hbinary : 3 ≤ p ∧ p ≤ 12
  · obtain ⟨hlow, hhigh⟩ := hbinary
    rw [readAt_binary (Nat.le_succ_of_le hlow) (Nat.succ_le_succ hhigh)] at h
    rw [readAt_binary hlow (Nat.le_succ_of_le hhigh)]
    exact binary_lift hhigh h hrest
  · have hcases : p = 0 ∨ p = 1 ∨ p = 2 ∨ p = 13 ∨ p = 14 ∨ p = 15 := by
      have hnat : ∀ n : Nat, n < 16 → ¬ (3 ≤ n ∧ n ≤ 12) → n = 0 ∨ n = 1 ∨ n = 2 ∨ n = 13 ∨ n = 14 ∨ n = 15 := by omega
      exact hnat p hp hbinary
    rcases hcases with rfl | rfl | rfl | rfl | rfl | rfl
    · exact expression_lift h hrest
    · exact assignment_lift h hrest
    · exact conditional_lift h hrest
    · exact power_lift h hrest
    · exact unary_lift h
    · exact update_lift h hrest

/-- What a tighter rule reads is read by all looser ones. -/
theorem readAt_lift {p q : Precedence} (hle : p ≤ q) (hq : q ≤ 16) (h : readAt inner q ts = some (e, rest))
    (hrest : Stops p rest) : readAt inner p ts = some (e, rest) := by
  induction hle with
  | refl => exact h
  | @step q hle ih =>
    exact ih (Nat.le_of_succ_le hq) (readAt_succ hq h (hrest.mono hle))

end Syntax

end ScriptTrace
