import ScriptTrace.Proofs.Placement
import ScriptTrace.Proofs.PlaybackSteps
import ScriptTrace.Service.Tracer

/-!
# What a run reports

Tracing a program can fail at five places: where the program is read, where it is rewritten, where it is printed, in
the engine, and where the recorded events are read back. None of them keeps the frames from being answered.

* `Records` : what it takes for all five to go well, and the events that are then read back;
* `Frame.IsFailure` : the one picture of whatever went wrong;
* `throughFailure` : events up to the first failure among them;
* `Playback.ErrorsLast` : what one event keeps of the frames of a playback;
* `runCode_reports` : the frames of a program, whatever parser and engine answer.
-/

namespace ScriptTrace

/-! ## Failures in a playback -/

/-- The events up to the first failure, and that failure. -/
def throughFailure : List Event → List Event
  | [] => []
  | e :: rest => if e.kind = .error then [e] else e :: throughFailure rest

namespace Playback

/-- Once a playback is finished, no event counts. -/
theorem foldl_of_finished {p : Playback} (h : p.finished = true) (events : List Event) : events.foldl step p = p := by
  induction events with
  | nil => rfl
  | cons e events ih =>
    rw [List.foldl_cons, show p.step e = p from if_pos h]
    exact ih

theorem finished_step_of_error (p : Playback) {e : Event} (h : e.kind = .error) : (p.step e).finished = true := by
  unfold step
  cases hfinished : p.finished with
  | true => rw [if_pos rfl, hfinished]
  | false =>
    rw [if_neg (by decide), h]
    rfl

/-- What comes after the first failure does not count. -/
theorem foldl_throughFailure (events : List Event) (p : Playback) :
    (throughFailure events).foldl step p = events.foldl step p := by
  induction events generalizing p with
  | nil => rfl
  | cons e events ih =>
    unfold throughFailure
    by_cases h : e.kind = .error
    · rw [if_pos h, List.foldl_cons, List.foldl_cons, List.foldl_nil]
      exact (foldl_of_finished (finished_step_of_error p h) events).symm
    · rw [if_neg h, List.foldl_cons, List.foldl_cons]
      exact ih (p.step e)

/-- A frame that tells an error is the last one, and the playback is finished. -/
structure ErrorsLast (p : Playback) : Prop where
  running : p.finished = false → ∀ f ∈ p.frames, f.error = none
  before : ∀ f ∈ p.frames.dropLast, f.error = none

theorem ErrorsLast.step {p : Playback} (h : p.ErrorsLast) (e : Event) : (p.step e).ErrorsLast := by
  obtain ⟨-, hstep⟩ | ⟨hrunning, ⟨-, hstep⟩ | ⟨-, hstep⟩ | ⟨-, hstep⟩ | ⟨-, hstep⟩⟩ := step_cases p e
  · rw [hstep]
    exact h
  · rw [hstep]
    refine ⟨fun hnot => Bool.noConfusion hnot, fun f hf => ?_⟩
    have hframes : (p.fail e).frames.dropLast = p.frames := List.dropLast_concat
    rw [hframes] at hf
    exact h.running hrunning f hf
  · rw [hstep]
    exact ⟨h.running, h.before⟩
  · rw [hstep]
    exact h
  · rw [hstep]
    -- no frame so far has an error, and a picture has none, so none has one afterwards
    have hnone : ∀ f ∈ (p.apply e).frames, f.error = none := by
      cases hshows : p.shows e (p.scene.after e).scene with
      | false =>
        rw [apply_of_not_shows hshows]
        exact h.running hrunning
      | true =>
        rw [apply_of_shows hshows]
        intro f hf
        rcases List.mem_append.1 hf with hf | hf
        · exact h.running hrunning f hf
        · rw [List.mem_singleton.1 hf]
          rfl
    exact ⟨fun _ => hnone, fun f hf => hnone f (List.dropLast_subset _ hf)⟩

theorem errorsLast_run (events : List Event) : (run events).ErrorsLast := by
  induction events using List.reverseRecOn with
  | nil => exact ⟨fun _ f hf => absurd hf List.not_mem_nil, fun f hf => absurd hf List.not_mem_nil⟩
  | append_singleton events e ih =>
    rw [run_append]
    exact ih.step e

end Playback

/-! ## What can go wrong -/

/-- The picture of a failure: it has a text, and nothing else is seen. -/
structure Frame.IsFailure (f : Frame) : Prop where
  action : f.action = "error"
  error : ∃ text, f.error = some text ∧ text ≠ ""
  stack : f.stack = []
  globals : f.globals = []
  locals : f.locals = []
  stdout : f.stdout = []

theorem Frame.isFailure_failed (message : Option String) (line : Int) : (Frame.failed message line).IsFailure := by
  refine ⟨rfl, ?_, rfl, rfl, rfl, rfl⟩
  unfold Frame.failed
  split
  · exact ⟨_, rfl, by decide⟩
  · exact ⟨_, rfl, by decide⟩
  · rename_i text hempty
    exact ⟨text, rfl, hempty⟩

/-- The parser answers a tree, which is rewritten and printed; the engine starts; the program ends within its budget and
throws nothing; and these are its events. -/
inductive Records (code : String) : ParserReply → Engine → List Event → Prop where
  | intro {tree out : Json} {text : String} {engine : Engine} {events : List Event}
      (rewritten : instrument tree (some code) = .ok out)
      (printed : printNode out = .ok (.str text))
      (ready : engine.unready = none)
      (within : engine.reply.exceeded ≠ some true)
      (returned : engine.reply.thrown = none)
      (read : loadEvents engine.reply.events = .ok events) : Records code (.tree tree) engine events

theorem Records.unique {code : String} {parser : ParserReply} {engine : Engine} {events others : List Event}
    (h : Records code parser engine events) (hothers : Records code parser engine others) : events = others := by
  cases h with
  | intro _ _ _ _ _ hread =>
    cases hothers with
    | intro _ _ _ _ _ hothers => exact Except.ok.inj (hread.symm.trans hothers)

/-- The text of a program is there exactly if its tree is rewritten and printed. -/
theorem instrumentedText_eq_ok {tree : Json} {code : Option String} {text : String} :
    instrumentedText tree code = .ok text ↔ ∃ out, instrument tree code = .ok out ∧ printNode out = .ok (.str text) := by
  unfold instrumentedText
  cases instrument tree code with
  | error refusal => simp [bind, Except.bind]
  | ok out =>
    simp only [bind, Except.bind, Except.ok.injEq, exists_eq_left']
    cases printNode out with
    | error fault => cases fault <;> simp [throw, throwThe, MonadExceptOf.throw]
    | ok j => cases j <;> simp [pure, Except.pure, throw, throwThe, MonadExceptOf.throw]

/-- A budget that was exceeded outweighs what was thrown, and what was thrown the recorded events. -/
theorem runProgram_fst (limits : Limits) (source : String) (engine : EngineReply) :
    (runProgram limits source engine).1 =
      if engine.exceeded = some true then .error (.failed (.outOfEvents limits.maxEvents))
      else match engine.thrown with
        | some text => .error (.failed (.ofThrown limits text))
        | none => (loadEvents engine.events).mapError .unreadable := by
  have hexceeded : engine.exceeded.getD false = true ↔ engine.exceeded = some true := by
    cases engine.exceeded <;> simp
  unfold runProgram Session.execute
  simp only [Session.prepare, Session.call]
  by_cases h : engine.exceeded = some true
  · rw [if_pos h, if_pos (hexceeded.2 h)]
    rfl
  · rw [if_neg h, if_neg fun hget => h (hexceeded.1 hget)]
    cases engine.thrown with
    | some text => rfl
    | none => cases hread : loadEvents engine.events <;> rfl

/-- The frames are those of the recorded events, or one failure if there are none. -/
theorem runCode_cases (limits : Limits) (code : String) (parser : ParserReply) (engine : Engine) :
    (∃ events, Records code parser engine events ∧ runCode code parser engine limits = framesOf events) ∨
    ((∀ events, ¬ Records code parser engine events) ∧
      ∃ message, runCode code parser engine limits = [.failed message (-1)]) := by
  obtain ⟨unready, engine⟩ := engine
  unfold runCode trace instrumentSource
  cases parser with
  | syntaxError text => exact .inr ⟨nofun, _, rfl⟩
  | tooDeep => exact .inr ⟨nofun, _, rfl⟩
  | crash text => exact .inr ⟨nofun, _, rfl⟩
  | tree tree =>
    simp only [parseProgram, bind, Except.bind]
    cases htext : instrumentedText tree (some code) with
    | error refusal =>
      have hnone : ∀ events, ¬ Records code (.tree tree) ⟨unready, engine⟩ events := by
        rintro events ⟨hrun, hprint, -⟩
        rw [instrumentedText_eq_ok.2 ⟨_, hrun, hprint⟩] at htext
        cases htext
      cases refusal <;> exact .inr ⟨hnone, _, rfl⟩
    | ok text =>
      obtain ⟨out, hrun, hprint⟩ := instrumentedText_eq_ok.1 htext
      cases unready with
      | some thrown =>
        refine .inr ⟨?_, _, rfl⟩
        rintro events ⟨-, -, hready, -⟩
        cases hready
      | none =>
        simp only [traceRun, runProgram_fst]
        by_cases hexceeded : engine.exceeded = some true
        · rw [if_pos hexceeded]
          refine .inr ⟨?_, _, rfl⟩
          rintro events ⟨-, -, -, hwithin, -⟩
          exact hwithin hexceeded
        rw [if_neg hexceeded]
        cases hthrown : engine.thrown with
        | some thrown =>
          refine .inr ⟨?_, _, rfl⟩
          rintro events ⟨-, -, -, -, hreturned, -⟩
          cases hthrown.symm.trans hreturned
        | none =>
          cases hread : loadEvents engine.events with
          | error fault =>
            refine .inr ⟨?_, _, rfl⟩
            rintro events ⟨-, -, -, -, -, hevents⟩
            cases hread.symm.trans hevents
          | ok events => exact .inl ⟨events, ⟨hrun, hprint, rfl, hexceeded, hthrown, hread⟩, rfl⟩

/-- Whatever the limits, and whatever the parser and the engine answer, there are frames. If the program is read,
rewritten, printed and run and its events are read back, they are those of the selected run; if any of that fails, there
is one frame, of a failure. A frame with an error is the last one, and what comes after the first failure of a run does
not count. -/
theorem runCode_reports (limits : Limits) (code : String) (parser : ParserReply) (engine : Engine) :
    (∀ events, Records code parser engine events → runCode code parser engine limits = playback (selectRun events)) ∧
      ((¬ ∃ events, Records code parser engine events) → ∃ f, runCode code parser engine limits = [f] ∧ f.IsFailure) ∧
      (∀ f ∈ (runCode code parser engine limits).dropLast, f.error = none) ∧
      ∀ events, playback (throughFailure (selectRun events)) = playback (selectRun events) := by
  have hcut (events : List Event) : playback (throughFailure (selectRun events)) = playback (selectRun events) :=
    congrArg Playback.frames (Playback.foldl_throughFailure (selectRun events) {})
  obtain ⟨events, hrecords, hframes⟩ | ⟨hnone, message, hframes⟩ := runCode_cases limits code parser engine
  · refine ⟨fun others hothers => ?_, fun hnot => absurd ⟨events, hrecords⟩ hnot, ?_, hcut⟩
    · rw [hframes, hothers.unique hrecords, framesOf]
    · rw [hframes]
      exact (Playback.errorsLast_run (selectRun events)).before
  · refine ⟨fun events hrecords => absurd hrecords (hnone events), fun _ => ?_, ?_, hcut⟩
    · exact ⟨_, hframes, Frame.isFailure_failed message (-1)⟩
    · rw [hframes]
      exact fun f hf => absurd hf List.not_mem_nil

/-- Of a text that lists values, these values are read. -/
theorem loadEvents_list {text : String} {values : List Json} (h : Json.parse text = .ok (.arr values)) :
    loadEvents (some text) = (Event.readAll values).mapError .badEvent := by
  have hnone : (Json.parse "").isOk = false := by decide +kernel
  unfold loadEvents
  split
  · rename_i hempty
    obtain rfl : text = "" := hempty
    rw [h] at hnone
    cases hnone
  · rw [Option.getD_some, h]
    rfl

/-- What an engine answers that recorded one call. -/
def oneCall : EngineReply := { events := some "[\x7b\"kind\": \"call\"\x7d]" }

theorem loadEvents_oneCall : loadEvents oneCall.events = .ok [{ kind := .call }] := by
  have hparse : Json.parse "[\x7b\"kind\": \"call\"\x7d]" = .ok (.arr [.obj [("kind", .str "call")]]) := by cbv
  rw [oneCall, loadEvents_list hparse]
  rfl

theorem runCode_reports_echo : Records "" (.tree echoProgram) oneCall [{ kind := .call }] ∧
    runCode "" (.tree echoProgram) oneCall = playback (selectRun [{ kind := .call }]) ∧
    (∃ f, runCode "" (.tree echoProgram) { reply := { oneCall with thrown := some "boom" } } = [f] ∧ f.IsFailure) ∧
    ∃ f, runCode "" (.tree echoProgram) { unready := some "out of memory", reply := oneCall } { memoryLimit := 1 } = [f] ∧
      f.IsFailure := by
  have hok : (instrumentedText echoProgram (some "")).isOk = true := by decide +kernel
  cases htext : instrumentedText echoProgram (some "") with
  | error refusal => rw [htext] at hok; cases hok
  | ok text =>
    obtain ⟨out, hrun, hprint⟩ := instrumentedText_eq_ok.1 htext
    have hrecords : Records "" (.tree echoProgram) oneCall [{ kind := .call }] :=
      ⟨hrun, hprint, rfl, by decide, rfl, loadEvents_oneCall⟩
    refine ⟨hrecords, (runCode_reports {} "" (.tree echoProgram) oneCall).1 _ hrecords,
      (runCode_reports {} "" (.tree echoProgram) _).2.1 ?_, (runCode_reports _ "" (.tree echoProgram) _).2.1 ?_⟩
    · rintro ⟨events, -, -, -, -, hreturned, -⟩
      cases hreturned
    · rintro ⟨events, -, -, hready, -⟩
      cases hready

end ScriptTrace
