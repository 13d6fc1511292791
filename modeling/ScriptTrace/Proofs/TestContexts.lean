import ScriptTrace.Proofs.PlaybackSteps

/-!
# Tests are told once

A test waits until an event that bears on what is seen. That event gives a frame which tells the test, and then the
test no longer waits. A later test takes the place of one that still waits, and what is for information only leaves it
waiting.

* `Kind.bearsOnScene` : the kinds of events that a test waits for;
* `waitingTest` : the test that waits after some events, found by going back through them;
* `Playback.pending_run` : a playback has the text of that test at hand;
* `framesAt` : the frames that the event at a position gives;
* `Playback.tests_told` : which frames tell which tests.
-/

namespace ScriptTrace

/-! ## Waiting tests -/

/-- Kinds that may change what is seen. -/
def Kind.bearsOnScene (k : Kind) : Bool := k.isSignificant || k.isWrite

/-- The test that waits after some events: the last one since an event that bears on what is seen. -/
def waitingTest (events : List Event) : Option Event :=
  (events.reverse.takeWhile fun e => !e.kind.bearsOnScene).find? (·.kind == .test)

theorem waitingTest_concat (events : List Event) (e : Event) : waitingTest (events ++ [e]) =
    if e.kind.bearsOnScene = true then none else if e.kind = .test then some e else waitingTest events := by
  rw [waitingTest, List.reverse_append, List.reverse_singleton, List.singleton_append, List.takeWhile_cons]
  cases hbears : e.kind.bearsOnScene with
  | true => rfl
  | false =>
    change (e :: events.reverse.takeWhile _).find? _ = if e.kind = .test then some e else waitingTest events
    rw [List.find?_cons]
    by_cases htest : e.kind = .test
    · rw [if_pos htest, htest]
      rfl
    · rw [if_neg htest, beq_false_of_ne htest]
      rfl

/-- What a frame tells of a test before it. -/
structure Frame.Tells (f : Frame) (kind : Kind) (test : Option Event) : Prop where
  context : f.context = test.map testText
  action : f.action = if test.isSome then kind.word ++ " (after test)" else kind.word

namespace Playback

variable {p : Playback} {e : Event}

/-! ## One event -/

/-- An event that bears on what is seen leaves no test waiting, a test waits, and everything else changes nothing. -/
theorem pending_step (hrunning : p.finished = false) (herror : e.kind ≠ .error) : (p.step e).finished = false ∧
    (p.step e).pending =
      if e.kind.bearsOnScene = true then none else if e.kind = .test then some (testText e) else p.pending := by
  obtain ⟨hfinished, -⟩ | ⟨-, ⟨hk, -⟩ | ⟨hk, hstep⟩ | ⟨⟨word, hk⟩, hstep⟩ | ⟨hk, hstep⟩⟩ := step_cases p e
  · rw [hrunning] at hfinished
    cases hfinished
  · exact absurd hk herror
  · rw [hstep, hk]
    exact ⟨hrunning, rfl⟩
  · rw [hstep, hk]
    exact ⟨hrunning, rfl⟩
  · have hbears : e.kind.bearsOnScene = true := by rwa [Kind.bearsOnScene, Bool.or_eq_true]
    rw [hstep, finished_apply, if_pos hbears]
    refine ⟨hrunning, ?_⟩
    cases hshows : p.shows e (p.scene.after e).scene with
    | true => rw [apply_of_shows hshows]
    | false =>
      -- an event that bears on what is seen and gives no frame is a write with no test before it
      rw [apply_of_not_shows hshows]
      simp only [shows, Bool.or_eq_false_iff, Bool.and_eq_false_iff] at hshows
      rcases hshows.1.2 with hpending | hwrite
      · simpa using hpending
      · rw [hshows.1.1, hwrite] at hk
        rcases hk with hk | hk <;> cases hk

/-- An event gives a frame after a test, and any frame it gives tells that test. -/
theorem frames_step_of_bears (hrunning : p.finished = false) (h : e.kind.bearsOnScene = true) {test : Option Event}
    (hpending : p.pending = test.map testText) : ∃ new, (p.step e).frames = p.frames ++ new ∧
      (∀ f ∈ new, f.Tells e.kind test) ∧ (test.isSome = true → ∃ f, new = [f]) := by
  have hk : e.kind.isSignificant = true ∨ e.kind.isWrite = true := by rwa [Kind.bearsOnScene, Bool.or_eq_true] at h
  obtain ⟨hfinished, -⟩ | ⟨-, ⟨hk', -⟩ | ⟨hk', -⟩ | ⟨⟨word, hk'⟩, -⟩ | ⟨-, hstep⟩⟩ := step_cases p e
  · rw [hrunning] at hfinished
    cases hfinished
  · rw [hk'] at h
    cases h
  · rw [hk'] at h
    cases h
  · rw [hk'] at h
    cases h
  rw [hstep]
  have hsome : p.pending.isSome = test.isSome := by rw [hpending, Option.isSome_map]
  cases hshows : p.shows e (p.scene.after e).scene with
  | true =>
    rw [apply_of_shows hshows]
    refine ⟨[p.picture e (p.scene.after e)], rfl, fun f hf => ?_, fun _ => ⟨_, rfl⟩⟩
    rw [List.mem_singleton.1 hf]
    exact ⟨hpending, by rw [← hsome]; rfl⟩
  | false =>
    rw [apply_of_not_shows hshows]
    refine ⟨[], (List.append_nil _).symm, by simp, fun htest => ?_⟩
    -- an event after a test gives a frame
    simp only [shows, hsome, htest, Bool.true_and, Bool.or_eq_false_iff] at hshows
    rw [hshows.1.1, hshows.1.2] at hk
    rcases hk with hk | hk <;> cases hk

/-! ## All events -/

/-- As long as nothing fails, the test at hand is the one that waits. -/
theorem pending_run {events : List Event} (h : ∀ e ∈ events, e.kind ≠ .error) :
    (run events).finished = false ∧ (run events).pending = (waitingTest events).map testText := by
  induction events using List.reverseRecOn with
  | nil => exact ⟨rfl, rfl⟩
  | append_singleton events e ih =>
    obtain ⟨hrunning, hpending⟩ := ih fun e he => h e (List.mem_append_left _ he)
    obtain ⟨hrunning', hpending'⟩ := pending_step hrunning (h e (by simp))
    rw [run_append, waitingTest_concat]
    refine ⟨hrunning', hpending'.trans ?_⟩
    split
    · rfl
    · split
      · rfl
      · exact hpending

end Playback

/-- The frames that the event at a position gives. -/
def framesAt (events : List Event) (k : Nat) : List Frame :=
  (playback (events.take (k + 1))).drop (playback (events.take k)).length

namespace Playback

/-- After one more event there are the frames there were, and those that the event gives. -/
theorem playback_take_succ (events : List Event) (k : Nat) :
    playback (events.take (k + 1)) = playback (events.take k) ++ framesAt events k := by
  have hprefix : playback (events.take k) <+: playback (events.take (k + 1)) := by
    rw [playback, playback, List.take_add_one, run, run, List.foldl_append]
    exact frames_foldl _ _
  exact (List.prefix_iff_eq_append.1 hprefix).symm

theorem playback_take (events : List Event) (n : Nat) :
    playback (events.take n) = (List.range n).flatMap (framesAt events) := by
  induction n with
  | zero => rfl
  | succ n ih => rw [playback_take_succ, ih, List.range_succ, List.flatMap_append, List.flatMap_singleton]

theorem framesAt_eq {events : List Event} {k : Nat} {e : Event} {new : List Frame} (he : events[k]? = some e)
    (h : ((run (events.take k)).step e).frames = (run (events.take k)).frames ++ new) : framesAt events k = new := by
  have hrun : run (events.take (k + 1)) = (run (events.take k)).step e := by
    rw [List.take_add_one, he, Option.toList_some, run_append]
  have hframes : playback (events.take k) ++ framesAt events k = playback (events.take k) ++ new := by
    rw [← playback_take_succ, playback, hrun, h]
    rfl
  exact List.append_cancel_left hframes

/-- The frames of a playback are those that its events give, each in its place. An event that bears on what is seen
gives a frame if a test waits for it; any frame it gives tells that test, and no other, and marks the action. All other
events give no frames, so no test is told twice or later. -/
theorem tests_told (events : List Event) (h : ∀ e ∈ events, e.kind ≠ .error) :
    playback events = (List.range events.length).flatMap (framesAt events) ∧
      ∀ k e, events[k]? = some e →
        (e.kind.bearsOnScene = true →
          (∀ test, waitingTest (events.take k) = some test → ∃ f, framesAt events k = [f] ∧
            f.context = some (testText test) ∧ f.action = e.kind.word ++ " (after test)") ∧
          (waitingTest (events.take k) = none → ∀ f ∈ framesAt events k, f.context = none ∧ f.action = e.kind.word)) ∧
        (e.kind.bearsOnScene = false → framesAt events k = []) := by
  refine ⟨by rw [← playback_take, List.take_length], fun k e he => ?_⟩
  obtain ⟨hrunning, hpending⟩ := pending_run fun x hx => h x (List.mem_of_mem_take (i := k) hx)
  refine ⟨fun hbears => ?_, fun hbears => ?_⟩
  · obtain ⟨new, hnew, htells, hone⟩ := frames_step_of_bears hrunning hbears hpending
    rw [framesAt_eq he hnew]
    refine ⟨fun test htest => ?_, fun hnone f hf => ?_⟩
    · rw [htest] at hone htells
      obtain ⟨f, rfl⟩ := hone rfl
      obtain ⟨hcontext, haction⟩ := htells f List.mem_cons_self
      exact ⟨f, rfl, hcontext, haction⟩
    · rw [hnone] at htells
      obtain ⟨hcontext, haction⟩ := htells f hf
      exact ⟨hcontext, haction⟩
  · refine framesAt_eq he ?_
    obtain ⟨-, hstep⟩ | ⟨-, ⟨hk, -⟩ | ⟨-, hstep⟩ | ⟨-, hstep⟩ | ⟨hk, -⟩⟩ := step_cases (run (events.take k)) e
    · rw [hstep, List.append_nil]
    · exact absurd hk (h e (List.mem_of_getElem? he))
    · rw [hstep, List.append_nil]
    · rw [hstep, List.append_nil]
    · rw [Kind.bearsOnScene, Bool.or_eq_false_iff] at hbears
      rw [hbears.1, hbears.2] at hk
      rcases hk with hk | hk <;> cases hk

/-- Two tests before a write that changes nothing, with a loop between them, and a call after it. -/
def testedEvents : List Event :=
  [{ kind := .declare, locals := [("x", .int 1)] }, { kind := .test, expression := some "a", result := .bool false },
    { kind := .note "loop" }, { kind := .test, expression := some "x < 2", result := .bool true },
    { kind := .assign, locals := [("x", .int 1)] }, { kind := .call, name := some "f" }]

theorem tests_told_twice : (∀ e ∈ testedEvents, e.kind ≠ .error) ∧
    waitingTest (testedEvents.take 4) = testedEvents[3]? ∧ waitingTest (testedEvents.take 5) = none ∧
    (∃ f, framesAt testedEvents 4 = [f] ∧ f.context = some "Tested \"x < 2\": true" ∧ f.action = "assign (after test)") ∧
    ∀ f ∈ framesAt testedEvents 5, f.context = none ∧ f.action = "call" := by
  have herror : ∀ e ∈ testedEvents, e.kind ≠ .error := by decide
  have htold := (tests_told testedEvents herror).2
  exact ⟨herror, rfl, rfl, ((htold 4 _ rfl).1 rfl).1 _ rfl, ((htold 5 _ rfl).1 rfl).2 rfl⟩

end Playback

end ScriptTrace
