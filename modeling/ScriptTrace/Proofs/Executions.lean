import ScriptTrace.Proofs.Erasing
import ScriptTrace.Trace.Event

/-!
# Executing statements

What instrumented statements record when they are executed. A statement ends normally, with a return or with an
exception, by the rules of the language; what an expression does is left open, but for the calls of the runtime:
it ends normally or with an exception, and it may record information and call functions before.

* `Completion` : how a statement ends;
* `Nested`, `Balanced` : events of calls one after another, and events in which every call is closed;
* `Runs` : the executions of expressions and statements, given the events of the calls that they may make;
* `Invokes` : the events of a call of one of some functions, to a depth of calls within calls;
* `IsInvocation` : one call, opened once and closed once.
-/

namespace ScriptTrace

open Probe

/-! ## Events of calls -/

/-- Whether an event neither opens nor closes a call. -/
def Event.informs (e : Event) : Bool := e.kind != .call && !e.kind.isClosing

/-- Records for information, and the events of calls, one after another. -/
inductive Nested (calls : List Event → Prop) : List Event → Prop
  | nil : Nested calls []
  | inform {e : Event} {events : List Event} : e.informs = true → Nested calls events → Nested calls (e :: events)
  | call {inner events : List Event} : calls inner → Nested calls events → Nested calls (inner ++ events)

/-- Every call is closed once, after the calls made within it, and nothing else is. -/
inductive Balanced : List Event → Prop
  | nil : Balanced []
  | inform {e : Event} {events : List Event} : e.informs = true → Balanced events → Balanced (e :: events)
  | call {opening closing : Event} {inner events : List Event} : opening.kind = .call → Balanced inner →
    closing.kind.isClosing = true → Balanced events → Balanced (opening :: inner ++ closing :: events)

theorem Balanced.append {first second : List Event} (h : Balanced first) (h' : Balanced second) : Balanced (first ++ second) := by
  induction h with
  | nil => exact h'
  | inform he _ ih => exact .inform he ih
  | @call opening closing inner events ho hinner hc _ _ ih =>
    have := Balanced.call ho hinner hc ih
    simpa [List.append_assoc] using this

theorem Balanced.singleton {e : Event} (h : e.informs = true) : Balanced [e] := .inform h .nil

/-- Balanced events do not begin with the end of a call. -/
theorem Balanced.not_closing {e : Event} {events : List Event} (h : Balanced (e :: events)) : e.kind.isClosing = false := by
  generalize hall : e :: events = all at h
  cases h with
  | nil => cases hall
  | inform he _ =>
    cases hall
    rw [Event.informs, Bool.and_eq_true, Bool.not_eq_true'] at he
    exact he.2
  | call ho _ _ _ =>
    cases hall
    rw [ho]
    rfl

/-! ## Completions -/

/-- How a statement ends. -/
inductive Completion where
  | normal | returned | thrown
  deriving DecidableEq

/-- The events of one call: a record that opens it, those of the calls made within it, and one record that closes it,
of an exception exactly if the function ends with one. -/
def IsInvocation (c : Completion) (events : List Event) : Prop :=
  ∃ opening inner closing, events = opening :: inner ++ [closing] ∧ opening.kind = .call ∧ Balanced inner ∧
    closing.kind = if c = .thrown then .throw else .ret

theorem IsInvocation.balanced {c : Completion} {events : List Event} (h : IsInvocation c events) : Balanced events := by
  obtain ⟨opening, inner, closing, rfl, ho, hinner, hc⟩ := h
  refine .call ho hinner ?_ .nil
  rw [hc]
  split <;> rfl

theorem Nested.balanced {calls : List Event → Prop} (hcalls : ∀ events, calls events → Balanced events) {events : List Event}
    (h : Nested calls events) : Balanced events := by
  induction h with
  | nil => exact .nil
  | inform he _ ih => exact .inform he ih
  | call hinner _ ih => exact (hcalls _ hinner).append ih

/-! ## Executions -/

/-- The kind of event that a call of the runtime records: that under the key for it. -/
def recordedKind (e : Json) : Kind :=
  let pairs := (((e.field "arguments").items.head?.getD .null).field "properties").items
  let pair := pairs.find? fun p => ((p.field "key").field "value").string? == some "kind"
  .ofWord ((((pair.getD .null).field "value").field "value").string?.getD "")

@[simp] theorem recordedKind_record (kind : String) (line : Json) (fields : List (String × Json)) :
    recordedKind (record kind line fields) = .ofWord kind := rfl

/-- The functions of the runtime that answer their last argument, and the kind of event that they record before. -/
def passing : List (String × Kind) := [(returnName, .ret), (testName, .test)]

/-- Whether an expression is evaluated as a part of the user's program: it is no literal, not the exception that a
guard caught, and no call of the runtime that is told of below. -/
def isOwn (e : Json) : Bool :=
  e.type? != some "Literal" && !e.isIdentifier (· == caughtName) &&
    [recordName, returnName, testName].all fun name => !e.calls name

/-- Whether a handler binds the exception to a name, or does not bind it. Other patterns may hold expressions. -/
def bindsName (clause : Json) : Bool :=
  (clause.field "param").isNull || (clause.field "param").type? == some "Identifier"

/-- What is executed. -/
inductive Phrase where
  | value (e : Json)
  | statement (s : Json)
  | list (ss : List Json)
  /-- The block of a `try`, with its handler. -/
  | attempt (s : Json)
  | handler (clause : Json)

/-- The executions of a phrase: the events that are recorded, and how it ends. `calls` tells the events of the calls
that expressions may make. A record is one event: the snapshots in it are taken to run no code of the program, such as a getter
that throws or calls. -/
inductive Runs (calls : List Event → Prop) : Phrase → List Event → Completion → Prop
  | own {e : Json} {events : List Event} {c : Completion} : isOwn e = true → c ≠ .returned → Nested calls events →
    Runs calls (.value e) events c
  | literal {e : Json} : e.type? = some "Literal" → Runs calls (.value e) [] .normal
  | caught {e : Json} : e.isIdentifier (· == caughtName) = true → Runs calls (.value e) [] .normal
  | record {e : Json} {event : Event} : e.calls recordName = true → event.kind = recordedKind e →
    Runs calls (.value e) [event] .normal
  | passed {e argument : Json} {p : String × Kind} {events : List Event} {event : Event} : p ∈ passing → e.calls p.1 = true →
    (e.field "arguments").items.getLast? = some argument → Runs calls (.value argument) events .normal → event.kind = p.2 →
    Runs calls (.value e) (events ++ [event]) .normal
  | notPassed {e argument : Json} {p : String × Kind} {events : List Event} : p ∈ passing → e.calls p.1 = true →
    (e.field "arguments").items.getLast? = some argument → Runs calls (.value argument) events .thrown →
    Runs calls (.value e) events .thrown
  | expression {s : Json} {events : List Event} {c : Completion} : s.type? = some "ExpressionStatement" →
    Runs calls (.value (s.field "expression")) events c → Runs calls (.statement s) events c
  | throw {s : Json} {events : List Event} {c : Completion} : s.type? = some "ThrowStatement" →
    Runs calls (.value (s.field "argument")) events c → Runs calls (.statement s) events .thrown
  | returnNothing {s : Json} : s.type? = some "ReturnStatement" → (s.field "argument").isNull = true →
    Runs calls (.statement s) [] .returned
  | returnValue {s : Json} {events : List Event} : s.type? = some "ReturnStatement" → (s.field "argument").isNull = false →
    Runs calls (.value (s.field "argument")) events .normal → Runs calls (.statement s) events .returned
  | returnThrown {s : Json} {events : List Event} : s.type? = some "ReturnStatement" → (s.field "argument").isNull = false →
    Runs calls (.value (s.field "argument")) events .thrown → Runs calls (.statement s) events .thrown
  | block {s : Json} {events : List Event} {c : Completion} : s.type? = some "BlockStatement" →
    Runs calls (.list (s.field "body").items) events c → Runs calls (.statement s) events c
  | branch {s : Json} {key : String} {first second : List Event} {c : Completion} : s.type? = some "IfStatement" →
    key ∈ ["consequent", "alternate"] → (s.field key).isNull = false → Runs calls (.value (s.field "test")) first .normal →
    Runs calls (.statement (s.field key)) second c → Runs calls (.statement s) (first ++ second) c
  | noBranch {s : Json} {events : List Event} : s.type? = some "IfStatement" → (s.field "alternate").isNull = true →
    Runs calls (.value (s.field "test")) events .normal → Runs calls (.statement s) events .normal
  | testThrown {s : Json} {events : List Event} : s.type? = some "IfStatement" →
    Runs calls (.value (s.field "test")) events .thrown → Runs calls (.statement s) events .thrown
  | attempted {s : Json} {events : List Event} {c : Completion} : s.type? = some "TryStatement" →
    (s.field "finalizer").isNull = true → Runs calls (.attempt s) events c → Runs calls (.statement s) events c
  /-- A finalizer is always executed, and counts if it does not end normally. -/
  | finalized {s : Json} {first second : List Event} {c d : Completion} : s.type? = some "TryStatement" →
    (s.field "finalizer").isNull = false → Runs calls (.attempt s) first c →
    Runs calls (.statement (s.field "finalizer")) second d →
    Runs calls (.statement s) (first ++ second) (if d = .normal then c else d)
  | uncaught {s : Json} {events : List Event} {c : Completion} : Runs calls (.statement (s.field "block")) events c →
    c ≠ .thrown ∨ (s.field "handler").isNull = true → Runs calls (.attempt s) events c
  | handled {s : Json} {first second : List Event} {c : Completion} :
    Runs calls (.statement (s.field "block")) first .thrown → (s.field "handler").isNull = false →
    Runs calls (.handler (s.field "handler")) second c → Runs calls (.attempt s) (first ++ second) c
  | bound {clause : Json} {events : List Event} {c : Completion} : bindsName clause = true →
    Runs calls (.statement (clause.field "body")) events c → Runs calls (.handler clause) events c
  | matched {clause : Json} {first second : List Event} {c : Completion} : bindsName clause = false → Nested calls first →
    Runs calls (.statement (clause.field "body")) second c → Runs calls (.handler clause) (first ++ second) c
  | notMatched {clause : Json} {events : List Event} : bindsName clause = false → Nested calls events →
    Runs calls (.handler clause) events .thrown
  | done : Runs calls (.list []) [] .normal
  | next {s : Json} {ss : List Json} {first second : List Event} {c : Completion} : Runs calls (.statement s) first .normal →
    Runs calls (.list ss) second c → Runs calls (.list (s :: ss)) (first ++ second) c
  | stop {s : Json} {ss : List Json} {events : List Event} {c : Completion} : Runs calls (.statement s) events c →
    c ≠ .normal → Runs calls (.list (s :: ss)) events c

/-! ## What an execution consists of -/

namespace Runs

variable {calls : List Event → Prop} {e s : Json} {ss : List Json} {events : List Event} {c : Completion}

theorem value_own (h : isOwn e = true) (hrun : Runs calls (.value e) events c) : c ≠ .returned ∧ Nested calls events := by
  simp only [isOwn, Bool.and_eq_true, bne_iff_ne, Bool.not_eq_true', List.all_cons, List.all_nil, and_true] at h
  obtain ⟨⟨hliteral, hcaught⟩, hrecord, hreturn, htest⟩ := h
  have hpassing : ∀ p ∈ passing, e.calls p.1 = false := by
    simp only [passing, List.mem_cons, List.not_mem_nil, or_false]
    rintro p (rfl | rfl)
    · exact hreturn
    · exact htest
  cases hrun with
  | own _ hc hnested => exact ⟨hc, hnested⟩
  | literal h => exact absurd h hliteral
  | caught h => rw [hcaught] at h; cases h
  | record h => rw [hrecord] at h; cases h
  | passed hp h => rw [hpassing _ hp] at h; cases h
  | notPassed hp h => rw [hpassing _ hp] at h; cases h

theorem value_literal (h : e.type? = some "Literal") (hrun : Runs calls (.value e) events c) : c = .normal ∧ events = [] := by
  have hcalls (name : String) : e.calls name = false := by rw [Json.calls, h]; rfl
  cases hrun with
  | own hown => rw [isOwn, h] at hown; cases hown
  | literal => exact ⟨rfl, rfl⟩
  | caught => exact ⟨rfl, rfl⟩
  | record h => rw [hcalls] at h; cases h
  | passed _ h => rw [hcalls] at h; cases h
  | notPassed _ h => rw [hcalls] at h; cases h

theorem value_caught (h : e.isIdentifier (· == caughtName) = true) (hrun : Runs calls (.value e) events c) : events = [] := by
  have htype : e.type? = some "Identifier" := by
    rw [Json.isIdentifier, Bool.and_eq_true, beq_iff_eq] at h
    exact h.1
  have hcalls (name : String) : e.calls name = false := by rw [Json.calls, htype]; rfl
  cases hrun with
  | own hown => rw [isOwn, h] at hown; simp at hown
  | literal => rfl
  | caught => rfl
  | record h => rw [hcalls] at h; cases h
  | passed _ h => rw [hcalls] at h; cases h
  | notPassed _ h => rw [hcalls] at h; cases h

/-- A record of the runtime. -/
theorem value_record {arguments : List Json} (hrun : Runs calls (.value (.callOf recordName arguments)) events c) :
    c = .normal ∧ ∃ event, events = [event] ∧ event.kind = recordedKind (.callOf recordName arguments) := by
  have hliteral : (Json.callOf recordName arguments).type? ≠ some "Literal" :=
    show some "CallExpression" ≠ some "Literal" by decide
  have hpassing : ∀ p ∈ passing, (recordName == p.1) = false := by decide
  cases hrun with
  | own hown => cases hown
  | literal h => exact absurd h hliteral
  | caught h => cases h
  | record _ hkind => exact ⟨rfl, _, rfl, hkind⟩
  | passed hp h => exact absurd h (ne_true_of_eq_false (hpassing _ hp))
  | notPassed hp h => exact absurd h (ne_true_of_eq_false (hpassing _ hp))

/-- A function of the runtime that answers its last argument records it, unless there is none. -/
theorem value_passing {p : String × Kind} (hp : p ∈ passing) {before : List Json} {argument : Json}
    (hrun : Runs calls (.value (.callOf p.1 (before ++ [argument]))) events c) :
    (c = .thrown ∧ Runs calls (.value argument) events .thrown) ∨
      c = .normal ∧ ∃ first event, events = first ++ [event] ∧ event.kind = p.2 ∧ Runs calls (.value argument) first .normal := by
  have hlast : ((Json.callOf p.1 (before ++ [argument])).field "arguments").items.getLast? = some argument :=
    List.getLast?_concat
  have hliteral : (Json.callOf p.1 (before ++ [argument])).type? ≠ some "Literal" :=
    show some "CallExpression" ≠ some "Literal" by decide
  have hrecord : ∀ p ∈ passing, (p.1 == recordName) = false := by decide
  have hinjective : ∀ p ∈ passing, ∀ q ∈ passing, p.1 = q.1 → q = p := by decide
  have hname {q : String × Kind} (hq : q ∈ passing) (hcalls : (Json.callOf p.1 (before ++ [argument])).calls q.1 = true) :
      q = p := hinjective p hp q hq (beq_iff_eq.1 hcalls)
  cases hrun with
  | own hown =>
    have hcalls : (Json.callOf p.1 (before ++ [argument])).calls p.1 = true := beq_self_eq_true p.1
    simp only [isOwn, Bool.and_eq_true, List.all_cons, List.all_nil, and_true, Bool.not_eq_true'] at hown
    obtain ⟨-, -, hreturn, htest⟩ := hown
    simp only [passing, List.mem_cons, List.not_mem_nil, or_false] at hp
    rcases hp with rfl | rfl
    · rw [hreturn] at hcalls; cases hcalls
    · rw [htest] at hcalls; cases hcalls
  | literal h => exact absurd h hliteral
  | caught h => cases h
  | record h => exact absurd h (ne_true_of_eq_false (hrecord p hp))
  | passed hq hcalls harg hrun hkind =>
    obtain rfl := hname hq hcalls
    rw [hlast] at harg
    cases harg
    exact .inr ⟨rfl, _, _, rfl, hkind, hrun⟩
  | notPassed hq hcalls harg hrun =>
    rw [hlast] at harg
    cases harg
    exact .inl ⟨rfl, hrun⟩

theorem statement_expression (h : s.type? = some "ExpressionStatement") (hrun : Runs calls (.statement s) events c) :
    Runs calls (.value (s.field "expression")) events c := by
  cases hrun with
  | expression _ hrun => exact hrun
  | throw h' | returnNothing h' | returnValue h' | returnThrown h' | block h' | branch h' | noBranch h' | testThrown h'
  | attempted h' | finalized h' => exact absurd (h.symm.trans h') (by decide)

theorem statement_throw (h : s.type? = some "ThrowStatement") (hrun : Runs calls (.statement s) events c) :
    c = .thrown ∧ ∃ d, Runs calls (.value (s.field "argument")) events d := by
  cases hrun with
  | throw _ hrun => exact ⟨rfl, _, hrun⟩
  | expression h' | returnNothing h' | returnValue h' | returnThrown h' | block h' | branch h' | noBranch h' | testThrown h'
  | attempted h' | finalized h' => exact absurd (h.symm.trans h') (by decide)

theorem statement_return (h : s.type? = some "ReturnStatement") (hargument : (s.field "argument").isNull = false)
    (hrun : Runs calls (.statement s) events c) :
    (c = .returned ∧ Runs calls (.value (s.field "argument")) events .normal) ∨
      c = .thrown ∧ Runs calls (.value (s.field "argument")) events .thrown := by
  cases hrun with
  | returnNothing _ h => rw [hargument] at h; cases h
  | returnValue _ _ hrun => exact .inl ⟨rfl, hrun⟩
  | returnThrown _ _ hrun => exact .inr ⟨rfl, hrun⟩
  | expression h' | throw h' | block h' | branch h' | noBranch h' | testThrown h' | attempted h' | finalized h' =>
    exact absurd (h.symm.trans h') (by decide)

theorem statement_block (h : s.type? = some "BlockStatement") (hrun : Runs calls (.statement s) events c) :
    Runs calls (.list (s.field "body").items) events c := by
  cases hrun with
  | block _ hrun => exact hrun
  | expression h' | throw h' | returnNothing h' | returnValue h' | returnThrown h' | branch h' | noBranch h' | testThrown h'
  | attempted h' | finalized h' => exact absurd (h.symm.trans h') (by decide)

theorem statement_if (h : s.type? = some "IfStatement") (hrun : Runs calls (.statement s) events c) :
    (c ≠ .returned ∧ Runs calls (.value (s.field "test")) events c) ∨
      ∃ key ∈ ["consequent", "alternate"], ∃ first second, events = first ++ second ∧ (s.field key).isNull = false ∧
        Runs calls (.value (s.field "test")) first .normal ∧ Runs calls (.statement (s.field key)) second c := by
  cases hrun with
  | branch _ hkey hnull htest hrun => exact .inr ⟨_, hkey, _, _, rfl, hnull, htest, hrun⟩
  | noBranch _ _ htest => exact .inl ⟨by decide, htest⟩
  | testThrown _ htest => exact .inl ⟨by decide, htest⟩
  | expression h' | throw h' | returnNothing h' | returnValue h' | returnThrown h' | block h' | attempted h' | finalized h' =>
    exact absurd (h.symm.trans h') (by decide)

theorem statement_try (h : s.type? = some "TryStatement") (hrun : Runs calls (.statement s) events c) :
    ((s.field "finalizer").isNull = true ∧ Runs calls (.attempt s) events c) ∨
      ∃ first second b d, (s.field "finalizer").isNull = false ∧ events = first ++ second ∧
        c = (if d = .normal then b else d) ∧ Runs calls (.attempt s) first b ∧
        Runs calls (.statement (s.field "finalizer")) second d := by
  cases hrun with
  | attempted _ hnull hrun => exact .inl ⟨hnull, hrun⟩
  | finalized _ hnull hrun hfinal => exact .inr ⟨_, _, _, _, hnull, rfl, rfl, hrun, hfinal⟩
  | expression h' | throw h' | returnNothing h' | returnValue h' | returnThrown h' | block h' | branch h' | noBranch h'
  | testThrown h' => exact absurd (h.symm.trans h') (by decide)

theorem attempt_cases (hrun : Runs calls (.attempt s) events c) :
    Runs calls (.statement (s.field "block")) events c ∧ (c ≠ .thrown ∨ (s.field "handler").isNull = true) ∨
      ∃ first second, events = first ++ second ∧ (s.field "handler").isNull = false ∧
        Runs calls (.statement (s.field "block")) first .thrown ∧ Runs calls (.handler (s.field "handler")) second c := by
  cases hrun with
  | uncaught hrun hc => exact .inl ⟨hrun, hc⟩
  | handled hrun hnull hhandler => exact .inr ⟨_, _, rfl, hnull, hrun, hhandler⟩

/-- Binding an exception comes before the body of the handler. -/
theorem handler_cases (hrun : Runs calls (.handler s) events c) :
    (bindsName s = false ∧ c = .thrown ∧ Nested calls events) ∨ ∃ first second, events = first ++ second ∧ Nested calls first ∧
      (bindsName s = true → first = []) ∧ Runs calls (.statement (s.field "body")) second c := by
  cases hrun with
  | bound h hrun => exact .inr ⟨[], _, rfl, .nil, fun _ => rfl, hrun⟩
  | matched h hfirst hrun => exact .inr ⟨_, _, rfl, hfirst, fun hname => (by rw [h] at hname; cases hname), hrun⟩
  | notMatched h hfirst => exact .inl ⟨h, rfl, hfirst⟩

theorem list_nil (hrun : Runs calls (.list []) events c) : c = .normal ∧ events = [] := by
  cases hrun
  exact ⟨rfl, rfl⟩

theorem list_cons (hrun : Runs calls (.list (s :: ss)) events c) :
    (c ≠ .normal ∧ Runs calls (.statement s) events c) ∨ ∃ first second, events = first ++ second ∧
      Runs calls (.statement s) first .normal ∧ Runs calls (.list ss) second c := by
  cases hrun with
  | next hfirst hrun => exact .inr ⟨_, _, rfl, hfirst, hrun⟩
  | stop hrun hc => exact .inl ⟨hc, hrun⟩

end Runs

/-- The events of a call of one of some functions, told by the statements of their bodies, in which calls are nested to
some depth at most. -/
def Invokes (bodies : List Json → Prop) : Nat → List Event → Prop
  | 0, _ => False
  | depth + 1, events => ∃ body c, bodies body ∧ Runs (Invokes bodies depth) (.list body) events c

end ScriptTrace
