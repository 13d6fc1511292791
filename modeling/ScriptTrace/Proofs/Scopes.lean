import ScriptTrace.Proofs.FieldMaps
import ScriptTrace.Proofs.PlaybackSteps
import Mathlib.Data.List.Forall2
import Mathlib.Data.List.Nodup

/-!
# Scopes of a run

Which calls are open after some events, and which value a variable has in each of them, told by the events
alone: a call is open until an end with no call open inside it, and a variable has the value that was
written last while its call was the innermost open one.

* `nesting`, `isOpen`, `openPositions` : the open calls, by position;
* `lastWritten` : the value of a variable in a scope, found by going back through the events;
* `Scene.Describes` : a scene shows exactly the open calls, their variables and what was printed;
* `Playback.run_describes` : so does the scene after any events without a failure, and each frame.
-/

namespace ScriptTrace

/-! ## Open calls -/

/-- The number of calls open inside a call after one more event; none once the call itself has ended. -/
def nestingAfter (depth : Option Nat) (e : Event) : Option Nat :=
  depth.bind fun d =>
    if e.kind = .call then some (d + 1)
    else if e.kind.isClosing then (if d = 0 then none else some (d - 1))
    else some d

/-- The number of calls open inside a call after `rest`, the events since it; none if one of them ends it. -/
def nesting (rest : List Event) : Option Nat := rest.foldl nestingAfter (some 0)

/-- The number of calls open inside the call at a position. -/
def nestingAt (events : List Event) (i : Nat) : Option Nat := nesting (events.drop (i + 1))

/-- Whether the event at a position is a call that has not ended. -/
def isOpen (events : List Event) (i : Nat) : Bool :=
  (events[i]?).any (·.kind == .call) && (nestingAt events i).isSome

/-- The positions of the open calls, outermost first. -/
def openPositions (events : List Event) : List Nat := (List.range events.length).filter (isOpen events)

/-- The innermost open call. -/
def innermost (events : List Event) : Option Nat := (openPositions events).getLast?

theorem lt_of_mem_openPositions {events : List Event} {i : Nat} (h : i ∈ openPositions events) : i < events.length :=
  List.mem_range.1 (List.mem_filter.1 h).1

theorem lt_of_innermost {events : List Event} {i : Nat} (h : innermost events = some i) : i < events.length :=
  lt_of_mem_openPositions (List.mem_of_getLast? h)

theorem nestingAt_append {events : List Event} {i : Nat} (h : i < events.length) (e : Event) :
    nestingAt (events ++ [e]) i = nestingAfter (nestingAt events i) e := by
  rw [nestingAt, List.drop_append_of_le_length (by omega), nesting, List.foldl_append]
  rfl

theorem isOpen_append {events : List Event} {i : Nat} (h : i < events.length) (e : Event) :
    isOpen (events ++ [e]) i = ((events[i]?).any (·.kind == .call) && (nestingAfter (nestingAt events i) e).isSome) := by
  rw [isOpen, nestingAt_append h, List.getElem?_append_left h]

theorem isOpen_last (events : List Event) (e : Event) : isOpen (events ++ [e]) events.length = (e.kind == .call) := by
  simp [isOpen, nestingAt, nesting]

/-- The open calls after one more event: those that it leaves open, and the call that it is. -/
theorem openPositions_append (events : List Event) (e : Event) : openPositions (events ++ [e]) =
    ((openPositions events).filter fun i => (nestingAfter (nestingAt events i) e).isSome) ++
      if e.kind = .call then [events.length] else [] := by
  have hlast : [events.length].filter (isOpen (events ++ [e])) = if e.kind = .call then [events.length] else [] := by
    rw [List.filter_singleton, isOpen_last]
    by_cases h : e.kind = .call
    · simp [h]
    · rw [if_neg h, beq_false_of_ne h, cond_false]
  rw [openPositions, List.length_append, List.length_singleton, List.range_succ, List.filter_append, hlast, openPositions,
    List.filter_filter]
  refine congrArg (· ++ _) (List.filter_congr fun i hi => ?_)
  rw [isOpen_append (List.mem_range.1 hi), isOpen]
  cases hn : nestingAt events i with
  | none => simp [nestingAfter]
  | some d => simp [Bool.and_comm]

/-- The calls inside `i :: is`, innermost first, when `d` calls are open inside `i`. -/
def Deepening (events : List Event) : Nat → List Nat → Prop
  | _, [] => True
  | d, i :: is => nestingAt events i = some d ∧ Deepening events (d + 1) is

theorem Deepening.mem {events : List Event} {d i : Nat} {is : List Nat} (h : Deepening events d is) (hi : i ∈ is) :
    ∃ k, d ≤ k ∧ nestingAt events i = some k := by
  induction is generalizing d with
  | nil => cases hi
  | cons j js ih =>
    rcases List.mem_cons.1 hi with rfl | hi
    · exact ⟨d, Nat.le_refl d, h.1⟩
    · obtain ⟨k, hk, hn⟩ := ih h.2 hi
      exact ⟨k, by omega, hn⟩

/-- An event that makes depth `d + n` out of every depth `d + m` from `m` on. -/
theorem Deepening.append {events : List Event} {e : Event} {m n : Nat} {is : List Nat}
    (hstep : ∀ d, nestingAfter (some (d + m)) e = some (d + n)) (hlt : ∀ i ∈ is, i < events.length) {d : Nat}
    (h : Deepening events (d + m) is) : Deepening (events ++ [e]) (d + n) is := by
  induction is generalizing d with
  | nil => trivial
  | cons j js ih =>
    refine ⟨?_, ?_⟩
    · rw [nestingAt_append (hlt j (by simp)), h.1, hstep]
    · have hjs : Deepening events (d + 1 + m) js := by
        rw [Nat.add_right_comm]
        exact h.2
      have := ih (fun i hi => hlt i (List.mem_cons_of_mem j hi)) hjs
      rwa [Nat.add_right_comm] at this

/-- What an event makes of the open calls, innermost first. -/
theorem openPositions_step {events : List Event} (h : Deepening events 0 (openPositions events).reverse) (e : Event) :
    Deepening (events ++ [e]) 0 (openPositions (events ++ [e])).reverse ∧
      (openPositions (events ++ [e])).reverse =
        if e.kind = .call then events.length :: (openPositions events).reverse
        else if e.kind.isClosing then (openPositions events).reverse.tail
        else (openPositions events).reverse := by
  have hlt : ∀ i ∈ (openPositions events).reverse, i < events.length := fun i hi =>
    lt_of_mem_openPositions (List.mem_reverse.1 hi)
  have hreverse : (openPositions (events ++ [e])).reverse = (if e.kind = .call then [events.length] else []) ++
      (openPositions events).reverse.filter fun i => (nestingAfter (nestingAt events i) e).isSome := by
    rw [openPositions_append, List.reverse_append, List.filter_reverse]
    split <;> rfl
  rw [hreverse]
  generalize (openPositions events).reverse = is at h hlt
  by_cases hcall : e.kind = .call
  · have hstep (d : Nat) : nestingAfter (some d) e = some (d + 1) := by simp [nestingAfter, hcall]
    have hall : (is.filter fun i => (nestingAfter (nestingAt events i) e).isSome) = is := by
      refine List.filter_eq_self.2 fun i hi => ?_
      obtain ⟨k, -, hk⟩ := h.mem hi
      rw [hk, hstep, Option.isSome_some]
    rw [hall, if_pos hcall, if_pos hcall, List.singleton_append]
    refine ⟨⟨by simp [nestingAt, nesting], ?_⟩, rfl⟩
    exact Deepening.append (m := 0) (n := 1) (fun d => hstep d) hlt h
  · rw [if_neg hcall, if_neg hcall, List.nil_append]
    by_cases hclosing : e.kind.isClosing = true
    · have hzero : nestingAfter (some 0) e = none := by simp [nestingAfter, hcall, hclosing]
      have hstep (d : Nat) : nestingAfter (some (d + 1)) e = some d := by simp [nestingAfter, hcall, hclosing]
      rw [if_pos hclosing]
      cases is with
      | nil => exact ⟨trivial, rfl⟩
      | cons i is =>
        have hall : (is.filter fun i => (nestingAfter (nestingAt events i) e).isSome) = is := by
          refine List.filter_eq_self.2 fun j hj => ?_
          obtain ⟨k, hle, hk⟩ := h.2.mem hj
          obtain ⟨k, rfl⟩ : ∃ j, k = j + 1 := ⟨k - 1, by omega⟩
          rw [hk, hstep, Option.isSome_some]
        rw [List.filter_cons_of_neg (by rw [h.1, hzero]; simp), hall, List.tail_cons]
        refine ⟨?_, rfl⟩
        exact Deepening.append (m := 1) (n := 0) hstep (fun j hj => hlt j (List.mem_cons_of_mem i hj)) h.2
    · have hstep (d : Nat) : nestingAfter (some d) e = some d := by simp [nestingAfter, hcall, hclosing]
      have hall : (is.filter fun i => (nestingAfter (nestingAt events i) e).isSome) = is := by
        refine List.filter_eq_self.2 fun i hi => ?_
        obtain ⟨k, -, hk⟩ := h.mem hi
        rw [hk, hstep, Option.isSome_some]
      rw [hall, if_neg hclosing]
      exact ⟨Deepening.append (m := 0) (n := 0) hstep hlt h, rfl⟩

/-- The innermost open call has no call open inside it, the next one has one, and so on. -/
theorem deepening_openPositions (events : List Event) : Deepening events 0 (openPositions events).reverse := by
  induction events using List.reverseRecOn with
  | nil => trivial
  | append_singleton events e ih => exact (openPositions_step ih e).1

/-- A call opens, an end closes the innermost open call, and other events change nothing. -/
theorem openPositions_reverse_append (events : List Event) (e : Event) : (openPositions (events ++ [e])).reverse =
    if e.kind = .call then events.length :: (openPositions events).reverse
    else if e.kind.isClosing then (openPositions events).reverse.tail
    else (openPositions events).reverse :=
  (openPositions_step (deepening_openPositions events) e).2

theorem innermost_eq_head? (events : List Event) : innermost events = (openPositions events).reverse.head? :=
  List.head?_reverse.symm

theorem nodup_openPositions (events : List Event) : (openPositions events).Nodup := List.nodup_range.filter _

/-! ## Variables -/

/-- What the event at a position writes to a variable of a scope: of the call that was the innermost open one, or of
the globals if no call was open. -/
def writtenAt (events : List Event) (scope : Option Nat) (name : String) (k : Nat) : Option Json :=
  (events[k]?).bind fun e =>
    if e.kind.isWrite ∧ innermost (events.take k) = scope then Fields.get? name e.locals.reverse else none

/-- The value of a variable in a scope: the one written last. -/
def lastWritten (events : List Event) (scope : Option Nat) (name : String) : Option Json :=
  (List.range events.length).reverse.findSome? (writtenAt events scope name)

theorem lastWritten_append (events : List Event) (e : Event) (scope : Option Nat) (name : String) :
    lastWritten (events ++ [e]) scope name =
      (if e.kind.isWrite ∧ innermost events = scope then Fields.get? name e.locals.reverse else none).or
        (lastWritten events scope name) := by
  have hlast : writtenAt (events ++ [e]) scope name events.length =
      if e.kind.isWrite ∧ innermost events = scope then Fields.get? name e.locals.reverse else none := by
    simp [writtenAt]
  have hbefore : (List.range events.length).reverse.findSome? (writtenAt (events ++ [e]) scope name) =
      lastWritten events scope name := by
    rw [lastWritten, ← List.head?_filterMap, ← List.head?_filterMap]
    refine congrArg List.head? (List.filterMap_congr fun k hk => ?_)
    have hlt : k < events.length := List.mem_range.1 (List.mem_reverse.1 hk)
    rw [writtenAt, writtenAt, List.getElem?_append_left hlt, List.take_append_of_le_length (Nat.le_of_lt hlt)]
  rw [lastWritten, List.length_append, List.length_singleton, List.range_succ, List.reverse_append, List.reverse_singleton,
    List.singleton_append, List.findSome?_cons, hlast, hbefore]
  cases (if e.kind.isWrite ∧ innermost events = scope then Fields.get? name e.locals.reverse else none) <;> rfl

/-- Only a write in the scope changes what was written last. -/
theorem lastWritten_append_of_not {events : List Event} {e : Event} {scope : Option Nat}
    (h : ¬ (e.kind.isWrite ∧ innermost events = scope)) (name : String) :
    lastWritten (events ++ [e]) scope name = lastWritten events scope name := by
  rw [lastWritten_append, if_neg h, Option.none_or]

/-- Nothing was written in a call that is still to come. -/
theorem lastWritten_next (events : List Event) (name : String) : lastWritten events (some events.length) name = none := by
  refine List.findSome?_eq_none_iff.2 fun k hk => ?_
  cases he : events[k]? with
  | none => rw [writtenAt, he, Option.bind_none]
  | some e =>
    rw [writtenAt, he, Option.bind_some, if_neg]
    rintro ⟨-, hscope⟩
    have hlt := lt_of_innermost hscope
    rw [List.length_take] at hlt
    omega

/-! ## Scenes -/

/-- The name that an open call is shown under. -/
def Event.shownName (e : Event) : String := if e.name.getD "" = "" then "anonymous" else e.name.getD ""

/-- A call as it is shown: the name, line and arguments of its event, and the values written in it last. -/
structure CallFrame.Describes (events : List Event) (i : Nat) (c : CallFrame) : Prop where
  call : ∃ e, events[i]? = some e ∧ c.function = e.shownName ∧ c.line = e.line ∧ c.args = e.args
  locals : ∀ name, Fields.get? name c.locals = lastWritten events (some i) name
  unfinished : c.returnValue = .null ∧ c.returned = false

/-- A scene as the events tell it. -/
structure Scene.Describes (events : List Event) (s : Scene) : Prop where
  /-- One frame for each open call, from the outermost to the innermost. -/
  stack : List.Forall₂ (CallFrame.Describes events) (openPositions events) s.stack.reverse
  globals : ∀ name, Fields.get? name s.globals = lastWritten events none name
  stdout : s.stdout = (events.filter (·.kind == .stdout)).map fun e => e.output.getD ""

theorem opened_function (e : Event) : (Scene.opened e).function = e.shownName := by
  unfold Scene.opened Event.shownName
  split
  · next h => simp [h]
  · next h => simp [h]
  · next name hne h => simp_all

theorem CallFrame.Describes.append {events : List Event} {e : Event} {i : Nat} {c : CallFrame}
    (h : CallFrame.Describes events i c) (hi : i < events.length) (hscope : ¬ (e.kind.isWrite ∧ innermost events = some i)) :
    CallFrame.Describes (events ++ [e]) i c := by
  obtain ⟨call, hcall, hfields⟩ := h.call
  refine ⟨⟨call, ?_, hfields⟩, fun name => ?_, h.unfinished⟩
  · rw [List.getElem?_append_left hi, hcall]
  · rw [lastWritten_append_of_not hscope, h.locals]

/-- Calls in which an event does not write stay as they are shown. -/
theorem describes_append {events : List Event} {e : Event} {is : List Nat} {calls : List CallFrame}
    (h : List.Forall₂ (CallFrame.Describes events) is calls) (hlt : ∀ i ∈ is, i < events.length)
    (hscope : ∀ i ∈ is, ¬ (e.kind.isWrite ∧ innermost events = some i)) :
    List.Forall₂ (CallFrame.Describes (events ++ [e])) is calls := by
  induction h with
  | nil => exact .nil
  | cons hc _ ih =>
    refine .cons (hc.append (hlt _ (by simp)) (hscope _ (by simp))) (ih (fun i hi => ?_) fun i hi => ?_)
    · exact hlt i (List.mem_cons_of_mem _ hi)
    · exact hscope i (List.mem_cons_of_mem _ hi)

section Step

variable {events : List Event} {e : Event} {s : Scene}

/-- The calls of a scene, innermost first. -/
theorem Scene.Describes.calls (h : s.Describes events) :
    List.Forall₂ (CallFrame.Describes events) (openPositions events).reverse s.stack := by
  rw [← List.forall₂_reverse_iff, List.reverse_reverse]
  exact h.stack

/-- A scene from its calls, innermost first. -/
theorem Scene.Describes.of_calls
    (hcalls : List.Forall₂ (CallFrame.Describes events) (openPositions events).reverse s.stack)
    (hglobals : ∀ name, Fields.get? name s.globals = lastWritten events none name)
    (hstdout : s.stdout = (events.filter (·.kind == .stdout)).map fun e => e.output.getD "") : s.Describes events :=
  ⟨by rwa [← List.forall₂_reverse_iff, List.reverse_reverse], hglobals, hstdout⟩

theorem lt_of_mem_reverse {i : Nat} (h : i ∈ (openPositions events).reverse) : i < events.length :=
  lt_of_mem_openPositions (List.mem_reverse.1 h)

theorem stdout_append (hkind : e.kind ≠ .stdout) :
    ((events ++ [e]).filter (·.kind == .stdout)).map (fun e => e.output.getD "") =
      (events.filter (·.kind == .stdout)).map fun e => e.output.getD "" := by
  rw [List.filter_append, List.filter_singleton, beq_false_of_ne hkind, cond_false, List.append_nil]

/-- An event that is no write and opens or closes no call. -/
theorem Scene.Describes.keep (h : s.Describes events) (hcall : e.kind ≠ .call) (hclosing : ¬ e.kind.isClosing)
    (hwrite : ¬ e.kind.isWrite) (stdout : List String)
    (hstdout : stdout = ((events ++ [e]).filter (·.kind == .stdout)).map fun e => e.output.getD "") :
    Scene.Describes (events ++ [e]) { s with stdout := stdout } := by
  have hopen : (openPositions (events ++ [e])).reverse = (openPositions events).reverse := by
    rw [openPositions_reverse_append, if_neg hcall, if_neg hclosing]
  refine .of_calls ?_ (fun name => ?_) hstdout
  · rw [hopen]
    exact describes_append h.calls (fun i hi => lt_of_mem_reverse hi) fun _ _ hw => hwrite hw.1
  · rw [lastWritten_append_of_not fun hw => hwrite hw.1]
    exact h.globals name

theorem Scene.Describes.open_call (h : s.Describes events) (hkind : e.kind = .call) :
    Scene.Describes (events ++ [e]) { s with stack := opened e :: s.stack } := by
  have hwrite : ¬ e.kind.isWrite := by rw [hkind]; decide
  have hopen : (openPositions (events ++ [e])).reverse = events.length :: (openPositions events).reverse := by
    rw [openPositions_reverse_append, if_pos hkind]
  refine .of_calls ?_ (fun name => ?_) ?_
  · rw [hopen]
    refine .cons ⟨⟨e, by simp, opened_function e, rfl, rfl⟩, fun name => ?_, rfl, rfl⟩ ?_
    · rw [lastWritten_append_of_not fun hw => hwrite hw.1, lastWritten_next]
      rfl
    · exact describes_append h.calls (fun i hi => lt_of_mem_reverse hi) fun _ _ hw => hwrite hw.1
  · rw [lastWritten_append_of_not fun hw => hwrite hw.1]
    exact h.globals name
  · rw [stdout_append (by rw [hkind]; decide)]
    exact h.stdout

theorem Scene.Describes.close (h : s.Describes events) (hclosing : e.kind.isClosing = true) :
    Scene.Describes (events ++ [e]) { s with stack := s.stack.tail } := by
  have hkind : e.kind = .ret ∨ e.kind = .throw := by
    cases hk : e.kind <;> simp_all [Kind.isClosing]
  have hwrite : ¬ e.kind.isWrite := by rcases hkind with hk | hk <;> rw [hk] <;> decide
  have hcall : e.kind ≠ .call := by rcases hkind with hk | hk <;> rw [hk] <;> decide
  have hopen : (openPositions (events ++ [e])).reverse = (openPositions events).reverse.tail := by
    rw [openPositions_reverse_append, if_neg hcall, if_pos hclosing]
  refine .of_calls ?_ (fun name => ?_) ?_
  · rw [hopen]
    refine describes_append ?_ (fun i hi => lt_of_mem_reverse (List.mem_of_mem_tail hi)) fun _ _ hw => hwrite hw.1
    rw [← List.drop_one, ← List.drop_one]
    exact List.forall₂_drop 1 h.calls
  · rw [lastWritten_append_of_not fun hw => hwrite hw.1]
    exact h.globals name
  · rw [stdout_append (by rcases hkind with hk | hk <;> rw [hk] <;> decide)]
    exact h.stdout

theorem Scene.Describes.write (h : s.Describes events) (hwrite : e.kind.isWrite = true) :
    Scene.Describes (events ++ [e]) (s.write e.locals) := by
  have hkind : e.kind = .declare ∨ e.kind = .assign := by
    cases hk : e.kind <;> simp_all [Kind.isWrite]
  have hcall : e.kind ≠ .call := by rcases hkind with hk | hk <;> rw [hk] <;> decide
  have hclosing : ¬ e.kind.isClosing := by rcases hkind with hk | hk <;> rw [hk] <;> decide
  have hopen : (openPositions (events ++ [e])).reverse = (openPositions events).reverse := by
    rw [openPositions_reverse_append, if_neg hcall, if_neg hclosing]
  have hstdout := h.stdout
  rw [← stdout_append (e := e) (by rcases hkind with hk | hk <;> rw [hk] <;> decide)] at hstdout
  have hinner := innermost_eq_head? events
  have hnodup : (openPositions events).reverse.Nodup := List.nodup_reverse.2 (nodup_openPositions events)
  have hlt : ∀ i ∈ (openPositions events).reverse, i < events.length := fun i hi => lt_of_mem_reverse hi
  have hcalls := h.calls
  rw [← hopen] at hcalls hinner hnodup hlt
  cases hs : s.stack with
  | nil =>
    rw [hs] at hcalls
    rw [List.forall₂_nil_right_iff.1 hcalls, List.head?_nil] at hinner
    rw [Scene.write, hs]
    refine .of_calls ?_ (fun name => ?_) hstdout
    · rw [List.forall₂_nil_right_iff.1 hcalls]
      exact .nil
    · rw [lastWritten_append, if_pos ⟨hwrite, hinner⟩, Fields.get?_setAll, h.globals]
  | cons top rest =>
    rw [hs] at hcalls
    obtain ⟨i, is, htop, hrest, his⟩ := List.forall₂_cons_right_iff.1 hcalls
    rw [his, List.head?_cons] at hinner
    rw [his, List.nodup_cons] at hnodup
    rw [his] at hlt
    rw [Scene.write, hs]
    refine .of_calls ?_ (fun name => ?_) hstdout
    · rw [his]
      refine .cons ⟨?_, fun name => ?_, htop.unfinished⟩ (describes_append hrest (fun j hj => ?_) ?_)
      · obtain ⟨call, hcall, hfields⟩ := htop.call
        exact ⟨call, by rw [List.getElem?_append_left (hlt i (by simp)), hcall], hfields⟩
      · rw [lastWritten_append, if_pos ⟨hwrite, hinner⟩, Fields.get?_setAll, htop.locals]
      · exact hlt j (List.mem_cons_of_mem i hj)
      · rintro j hj ⟨-, hj'⟩
        rw [hinner] at hj'
        exact hnodup.1 (Option.some.inj hj' ▸ hj)
    · rw [lastWritten_append_of_not (by rintro ⟨-, hnone⟩; rw [hinner] at hnone; cases hnone)]
      exact h.globals name

/-- What an event makes of a scene is what it adds to the telling of the events. -/
theorem Scene.Describes.after (h : s.Describes events) (e : Event) : (s.after e).scene.Describes (events ++ [e]) := by
  unfold Scene.after
  cases hk : e.kind with
  | call => exact h.open_call hk
  | declare | assign => exact h.write (by rw [hk]; rfl)
  | ret | throw => exact h.close (by rw [hk]; rfl)
  | stdout =>
    refine h.keep (by rw [hk]; decide) (by rw [hk]; decide) (by rw [hk]; decide) _ ?_
    rw [List.filter_append, List.map_append, h.stdout]
    simp [hk]
  | test | error | note _ =>
    refine h.keep (by rw [hk]; simp) (by rw [hk]; simp [Kind.isClosing]) (by rw [hk]; simp [Kind.isWrite]) s.stdout ?_
    rw [stdout_append (by rw [hk]; simp)]
    exact h.stdout

end Step

/-! ## Runs -/

namespace Playback

/-- An event that is no failure changes the scene as it says and ends nothing, and the frames it adds show the scene. -/
theorem step_of_running {p : Playback} {e : Event} (hrunning : p.finished = false) (hkind : e.kind ≠ .error) :
    (p.step e).scene = (p.scene.after e).scene ∧ (p.step e).finished = false ∧
      ∃ new, (p.step e).frames = p.frames ++ new ∧ ∀ f ∈ new,
        f.stack = (p.step e).scene.stack ∧ f.globals = (p.step e).scene.globals ∧ f.stdout = (p.step e).scene.stdout := by
  have hnone (s : Scene) : ∃ new, p.frames = p.frames ++ new ∧ ∀ f ∈ new,
      f.stack = s.stack ∧ f.globals = s.globals ∧ f.stdout = s.stdout :=
    ⟨[], (List.append_nil _).symm, by simp⟩
  obtain ⟨hfinished, -⟩ | ⟨-, ⟨herror, -⟩ | ⟨htest, hstep⟩ | ⟨⟨word, hnote⟩, hstep⟩ | ⟨-, hstep⟩⟩ := step_cases p e
  · rw [hrunning] at hfinished
    cases hfinished
  · exact absurd herror hkind
  · rw [hstep]
    exact ⟨by simp [Scene.after, htest], hrunning, hnone _⟩
  · rw [hstep]
    exact ⟨by simp [Scene.after, hnote], hrunning, hnone _⟩
  · rw [hstep]
    exact ⟨scene_apply p e, by rw [finished_apply, hrunning], frames_apply p e⟩

/-- Without a failure the scene is what the events tell. -/
theorem run_scene {events : List Event} (h : ∀ e ∈ events, e.kind ≠ .error) :
    (run events).finished = false ∧ (run events).scene.Describes events := by
  induction events using List.reverseRecOn with
  | nil => exact ⟨rfl, .nil, fun _ => rfl, rfl⟩
  | append_singleton events e ih =>
    obtain ⟨hrunning, hscene⟩ := ih fun e he => h e (List.mem_append_left _ he)
    obtain ⟨hstep, hrunning', -⟩ := step_of_running hrunning (h e (by simp))
    rw [run_append, hstep]
    exact ⟨hrunning', hscene.after e⟩

/-- After any part of a run without a failure, the open calls, the globals and what was printed are as its events tell.
The frames that its last event added show the same, and all its frames stay as they are. -/
theorem run_describes (events later : List Event) (h : ∀ e ∈ events ++ later, e.kind ≠ .error) :
    (run events).scene.Describes events ∧
      (∀ past e, events = past ++ [e] → ∃ new, (run events).frames = (run past).frames ++ new ∧ ∀ f ∈ new,
        f.stack = (run events).scene.stack ∧ f.globals = (run events).scene.globals ∧
          f.stdout = (run events).scene.stdout) ∧
      (run events).frames <+: (run (events ++ later)).frames := by
  have hevents : ∀ e ∈ events, e.kind ≠ .error := fun e he => h e (List.mem_append_left _ he)
  refine ⟨(run_scene hevents).2, ?_, ?_⟩
  · rintro past e rfl
    have hrunning := (run_scene fun e he => hevents e (List.mem_append_left _ he)).1
    rw [run_append]
    exact (step_of_running hrunning (hevents e (by simp))).2.2
  · rw [run, run, List.foldl_append]
    exact frames_foldl later (run events)

/-- A write in a call that has returned is no write in the call around it, and an end without a call ends nothing. -/
def nestedEvents : List Event :=
  [{ kind := .ret }, { kind := .call, name := some "f" }, { kind := .declare, locals := [("x", .int 1)] },
    { kind := .call }, { kind := .assign, locals := [("x", .int 2)] }, { kind := .throw }]

theorem run_describes_nested : (∀ e ∈ nestedEvents ++ [{ kind := .ret }], e.kind ≠ .error) ∧
    (run nestedEvents).scene.Describes nestedEvents ∧ openPositions nestedEvents = [1] ∧
      lastWritten nestedEvents (some 1) "x" = some (.int 1) :=
  ⟨by decide, (run_describes nestedEvents [{ kind := .ret }] (by decide)).1, by decide, by rfl⟩

end Playback

end ScriptTrace
