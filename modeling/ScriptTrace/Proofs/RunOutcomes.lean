import ScriptTrace.Proofs.RunReports
import ScriptTrace.Proofs.ThrownText

/-!
# How runs end

What a run asks of the engine, and what is answered for it, whatever the engine does. A failed run is told by one
event. A program that returns can still leave a record buffer that holds no events; then nothing is answered.

* `RunEnds` : the ends of a run, by what the engine answers;
* `runProgram_ends` : the calls of a run in order, its end, and the one event that stands for a failed run;
* `unknownError_thrown` : an exception that names itself as a text without a line is told, and an engine that is not
  ready to run anything;
* `HoldsEvents` : the events in the text of a record buffer;
* `recovered_answers` : what is answered for a run, and when nothing is.
-/

namespace ScriptTrace

/-- How a run ends: a budget that was exceeded outweighs what was thrown, and what was thrown the recorded events. -/
inductive RunEnds (limits : Limits) (reply : EngineReply) : Except SessionFault (List Event) → Prop
  | outOfEvents (hexceeded : reply.exceeded = some true) :
      RunEnds limits reply (.error (.failed (.outOfEvents limits.maxEvents)))
  | outOfTime (text : String) (hwithin : reply.exceeded ≠ some true) (hthrown : reply.thrown = some text)
      (hline : IsFirstLine text interruptedText) : RunEnds limits reply (.error (.failed (.outOfTime limits.timeLimit)))
  | threw (text line : String) (hwithin : reply.exceeded ≠ some true) (hthrown : reply.thrown = some text)
      (hline : IsFirstLine text line) (hother : line ≠ interruptedText) :
      RunEnds limits reply (.error (.failed (.threw line)))
  /-- A text without a line to tell. -/
  | threwBlank (text : String) (hwithin : reply.exceeded ≠ some true) (hthrown : reply.thrown = some text)
      (hblank : IsBlankText text) : RunEnds limits reply (.error (.failed (.threw "Unknown error")))
  | returned (hwithin : reply.exceeded ≠ some true) (hthrown : reply.thrown = none) :
      RunEnds limits reply ((loadEvents reply.events).mapError .unreadable)

/-- The program threw nothing, and its budget was not exceeded as far as is known. -/
def EngineReply.Returned (reply : EngineReply) : Prop := reply.thrown = none ∧ reply.exceeded ≠ some true

instance (reply : EngineReply) : Decidable reply.Returned := inferInstanceAs (Decidable (_ ∧ _))

section Runs

variable (limits : Limits) (source : String) (reply : EngineReply)

/-! ## Calls and ends -/

/-- The record buffer is read only if the program returned within its budget. -/
theorem runProgram_snd : (runProgram limits source reply).2 =
    [.limitMemory limits.memoryLimit, .limitStack limits.maxStack, .installRuntime (Prelude.source limits.maxEvents),
      .limitTime limits.timeLimit, .runProgram source, .readExceeded] ++ if reply.Returned then [.readEvents] else [] := by
  obtain ⟨thrown, exceeded, events⟩ := reply
  unfold runProgram Session.execute
  simp only [Session.prepare, Session.call]
  by_cases h : exceeded = some true
  · subst h
    have hnot : ¬ EngineReply.Returned ⟨thrown, some true, events⟩ := fun h => h.2 rfl
    rw [if_neg hnot]
    rfl
  · rw [if_neg (show ¬ exceeded.getD false = true from fun hget => h (by cases exceeded <;> simp_all))]
    cases thrown with
    | some text => rfl
    | none =>
      rw [if_pos ⟨rfl, h⟩]
      cases hread : loadEvents events <;> rfl

theorem runEnds_ofThrown {text : String} (hwithin : reply.exceeded ≠ some true) (hthrown : reply.thrown = some text) :
    RunEnds limits reply (.error (.failed (.ofThrown limits text))) := by
  by_cases hblank : IsBlankText text
  · rw [RunFault.ofThrown, thrownMessage_of_blank hblank]
    exact .threwBlank text hwithin hthrown hblank
  have hline := isFirstLine_thrownMessage hblank
  by_cases hinterrupted : thrownMessage text = interruptedText
  · rw [RunFault.ofThrown, if_pos hinterrupted]
    exact .outOfTime text hwithin hthrown (hinterrupted ▸ hline)
  · rw [RunFault.ofThrown, if_neg hinterrupted]
    exact .threw text _ hwithin hthrown hline hinterrupted

theorem runEnds_runProgram : RunEnds limits reply (runProgram limits source reply).1 := by
  rw [runProgram_fst]
  by_cases hexceeded : reply.exceeded = some true
  · rw [if_pos hexceeded]
    exact .outOfEvents hexceeded
  rw [if_neg hexceeded]
  cases hthrown : reply.thrown with
  | some text => exact runEnds_ofThrown limits reply hexceeded hthrown
  | none => exact .returned hexceeded hthrown

end Runs

/-- A run ends in one way only. -/
theorem RunEnds.eq_runProgram {limits : Limits} {reply : EngineReply} {r : Except SessionFault (List Event)}
    (h : RunEnds limits reply r) (source : String) : (runProgram limits source reply).1 = r := by
  rw [runProgram_fst]
  cases h with
  | outOfEvents hexceeded => rw [if_pos hexceeded]
  | outOfTime text hwithin hthrown hline =>
    rw [if_neg hwithin, hthrown]
    dsimp only
    rw [RunFault.ofThrown, if_pos hline.eq_thrownMessage.symm]
  | threw text line hwithin hthrown hline hother =>
    rw [if_neg hwithin, hthrown]
    dsimp only
    rw [RunFault.ofThrown, ← hline.eq_thrownMessage, if_neg hother]
  | threwBlank text hwithin hthrown hblank =>
    rw [if_neg hwithin, hthrown]
    dsimp only
    rw [RunFault.ofThrown, thrownMessage_of_blank hblank]
    rfl
  | returned hwithin hthrown => rw [if_neg hwithin, hthrown]

theorem isMessage_unknown : IsMessage "Unknown error" :=
  have hunbroken : "Unknown error".toList.any isLineBreak = false := by decide
  ⟨by decide, fun c hc => Bool.eq_false_iff.2 (List.any_eq_false.1 hunbroken c hc), by decide, by decide⟩

/-- What is told of an exception is one line without space around it. -/
theorem RunEnds.isMessage {limits : Limits} {reply : EngineReply} {message : String}
    (h : RunEnds limits reply (.error (.failed (.threw message)))) : IsMessage message := by
  generalize hend : Except.error (SessionFault.failed (.threw message)) = r at h
  cases h with
  | outOfEvents => cases hend
  | outOfTime => cases hend
  | threw text line _ _ hline =>
    cases hend
    exact hline.message
  | threwBlank =>
    cases hend
    exact isMessage_unknown
  | returned => cases hread : loadEvents reply.events <;> rw [hread] at hend <;> cases hend

/-- One event stands for a program that threw or exceeded its budget. -/
theorem failed_of_not_returned (limits : Limits) (source : String) {reply : EngineReply} (hnot : ¬ reply.Returned) :
    ∃ fault, (runProgram limits source reply).1 = .error (.failed fault) ∧
      recovered (runProgram limits source reply).1 = .ok [.failed fault.message] := by
  have hends := runEnds_runProgram limits source reply
  generalize (runProgram limits source reply).1 = r at hends
  cases hends with
  | returned hwithin hthrown => exact absurd ⟨hthrown, hwithin⟩ hnot
  | _ => exact ⟨_, rfl, rfl⟩

/-! ## Whole runs -/

/-- An engine that starts runs the program. -/
theorem Engine.run_of_ready {engine : Engine} (h : engine.unready = none) (limits : Limits) (source : String) :
    engine.run limits source =
      (.ok (runProgram limits source engine.reply).1, (runProgram limits source engine.reply).2) := by
  rw [Engine.run, h]

/-- Whatever an engine answers that starts: limits and runtime come first, the time limit starts last, the program runs
once, its budget is asked for once, and the record buffer is read only if the program returned within its budget. The
run ends as `RunEnds` tells. If the program threw or exceeded its budget, one failure event is answered and nothing of
what was recorded; what is told of an exception is one line without space around it. -/
theorem runProgram_ends (limits : Limits) (source : String) (engine : Engine) (hready : engine.unready = none) :
    (∀ r, (engine.run limits source).1 = .ok r ↔ RunEnds limits engine.reply r) ∧
    (engine.run limits source).2 =
      [.limitMemory limits.memoryLimit, .limitStack limits.maxStack, .installRuntime (Prelude.source limits.maxEvents),
        .limitTime limits.timeLimit, .runProgram source, .readExceeded] ++
          (if engine.reply.Returned then [.readEvents] else []) ∧
    (¬ engine.reply.Returned → ∃ fault, (engine.run limits source).1 = .ok (.error (.failed fault)) ∧
      recovered (.error (.failed fault)) = .ok [.failed fault.message]) ∧
    ∀ message, (engine.run limits source).1 = .ok (.error (.failed (.threw message))) → IsMessage message := by
  have hends := runEnds_runProgram limits source engine.reply
  rw [Engine.run_of_ready hready]
  refine ⟨fun r => ⟨fun h => Except.ok.inj h ▸ hends, fun h => congrArg _ (h.eq_runProgram source)⟩,
    runProgram_snd limits source engine.reply, fun hnot => ?_, fun message hthrew => (Except.ok.inj hthrew ▸ hends).isMessage⟩
  obtain ⟨fault, hfailed, -⟩ := failed_of_not_returned limits source hnot
  exact ⟨fault, congrArg _ hfailed, rfl⟩

/-- An exception with a trace of the stack. -/
def thrownText : String := "\n  Error: boom \n    at f"

/-- What an engine answers when a program throws after it recorded something. -/
def thrownReply : EngineReply := { thrown := some thrownText, events := some "[]" }

theorem runProgram_ends_thrown : (thrownReply : Engine).unready = none ∧ ¬ thrownReply.Returned ∧
    (Engine.run thrownReply {} "f()").1 = .ok (.error (.failed (.threw "Error: boom"))) ∧ IsMessage "Error: boom" ∧
    ∃ fault, (Engine.run thrownReply {} "f()").1 = .ok (.error (.failed fault)) ∧
      recovered (.error (.failed fault)) = .ok [.failed fault.message] := by
  have hnot : ¬ thrownReply.Returned := by decide
  have hline : IsFirstLine thrownText "Error: boom" := isFirstLine_iff.2 ⟨by decide +kernel, by decide +kernel⟩
  obtain ⟨hends, -, hfailed, hmessage⟩ := runProgram_ends {} "f()" thrownReply rfl
  have hrun := (hends _).2 (.threw thrownText "Error: boom" (by decide) rfl hline (by decide))
  exact ⟨rfl, hnot, hrun, hmessage _ hrun, hfailed hnot⟩

/-- What is told of a text without a line can be thrown as well. And an engine without room for its runtime runs nothing:
the exception of the runtime is what its run ends with. -/
theorem unknownError_thrown :
    (Engine.run { reply := { thrown := some "Unknown error" } } {} "f()").1 = .ok (.error (.failed (.threw "Unknown error"))) ∧
    ¬ IsBlankText "Unknown error" ∧
    Engine.run { unready := some "InternalError: out of memory", reply := {} } { memoryLimit := 1 } "f()" =
      (.error "InternalError: out of memory",
        [.limitMemory 1, .limitStack 1048576, .installRuntime (Prelude.source 10000)]) :=
  ⟨by rw [Engine.run_of_ready rfl, runProgram_fst]; rfl, by decide, rfl⟩

/-! ## The record buffer -/

/-- A text is that of a JSON value with items, and each item describes an event; or there is no text, and no event. -/
inductive HoldsEvents : Option String → List Event → Prop
  | missing : HoldsEvents none []
  | empty : HoldsEvents (some "") []
  | items (text : String) (j : Json) (values : List Json) (events : List Event) (hsome : text ≠ "")
      (hparse : Json.parse text = .ok j) (hitems : itemsOf? j = some values)
      (hread : List.Forall₂ (fun v e => Event.read v = .valid e) values events) : HoldsEvents (some text) events

theorem readAll_eq_ok {values : List Json} {events : List Event} :
    Event.readAll values = .ok events ↔ List.Forall₂ (fun v e => Event.read v = .valid e) values events := by
  have hstep (v : Json) (e : Event) : (Event.read v).toExcept = .ok e ↔ Event.read v = .valid e := by
    cases Event.read v with
    | valid found => exact ⟨fun h => congrArg _ (Except.ok.inj h), fun h => congrArg _ (Checked.valid.inj h)⟩
    | invalid issues => exact ⟨(by cases ·), (by cases ·)⟩
  unfold Event.readAll Checked.readAll
  rw [mapM_eq_ok]
  simp only [hstep]

/-- The events of a record buffer are those that its text holds. -/
theorem loadEvents_eq_ok {payload : Option String} {events : List Event} :
    loadEvents payload = .ok events ↔ HoldsEvents payload events := by
  constructor
  · intro h
    unfold loadEvents at h
    split at h
    · next hempty =>
      cases h
      cases payload with
      | none => exact .missing
      | some text =>
        obtain rfl : text = "" := hempty
        exact .empty
    · next text hsome =>
      obtain ⟨text, rfl⟩ : ∃ text, payload = some text := Option.ne_none_iff_exists'.1 fun hnone => hsome (by rw [hnone]; rfl)
      split at h
      · cases h
      · next j hparse =>
        split at h
        · cases h
        · next values hitems =>
          refine .items text j values events hsome hparse hitems (readAll_eq_ok.1 ?_)
          cases hread : Event.readAll values with
          | error issues => rw [hread] at h; cases h
          | ok found => rw [hread] at h; cases h; rfl
  · rintro ⟨⟩
    · rfl
    · rfl
    · next text j values hsome hparse hitems hread =>
      unfold loadEvents
      split
      · exact absurd ‹_› hsome
      · rw [Option.getD_some, hparse]
        dsimp only
        rw [hitems]
        dsimp only
        rw [readAll_eq_ok.2 hread]
        rfl

/-- Of a program that returned within its budget, the record buffer is what counts. -/
theorem recovered_of_returned {limits : Limits} {reply : EngineReply} (source : String) (h : reply.Returned) :
    recovered (runProgram limits source reply).1 = loadEvents reply.events := by
  rw [(RunEnds.returned h.2 h.1).eq_runProgram source]
  cases loadEvents reply.events <;> rfl

/-- What is answered for a run is the one event of its failure, or the events of the record buffer; there is no answer
exactly if the program returned within its budget and left a buffer that holds no events. -/
theorem recovered_answers (limits : Limits) (source : String) (reply : EngineReply) :
    ((∃ fault, recovered (runProgram limits source reply).1 = .error fault) ↔
      reply.Returned ∧ ∀ events, ¬ HoldsEvents reply.events events) ∧
    (∀ events, reply.Returned → HoldsEvents reply.events events → recovered (runProgram limits source reply).1 = .ok events) ∧
    (¬ reply.Returned → ∃ message, recovered (runProgram limits source reply).1 = .ok [.failed message]) := by
  by_cases hreturned : reply.Returned
  · rw [recovered_of_returned source hreturned]
    refine ⟨⟨fun hfault => ⟨hreturned, fun events hholds => ?_⟩, fun h => ?_⟩, fun events _ => loadEvents_eq_ok.2,
      fun hnot => absurd hreturned hnot⟩
    · obtain ⟨fault, hfault⟩ := hfault
      rw [loadEvents_eq_ok.2 hholds] at hfault
      cases hfault
    · cases hload : loadEvents reply.events with
      | error fault => exact ⟨fault, rfl⟩
      | ok events => exact absurd (loadEvents_eq_ok.1 hload) (h.2 events)
  · obtain ⟨fault, -, hanswer⟩ := failed_of_not_returned limits source hreturned
    rw [hanswer]
    refine ⟨⟨?_, fun h => absurd h.1 hreturned⟩, fun _ h => absurd h hreturned, fun _ => ⟨_, rfl⟩⟩
    rintro ⟨_, h⟩
    cases h

theorem recovered_answers_oneCall : oneCall.Returned ∧ HoldsEvents oneCall.events [{ kind := .call }] ∧
    recovered (runProgram {} "f()" oneCall).1 = .ok [{ kind := .call }] :=
  have hreturned : oneCall.Returned := by decide
  have hholds := loadEvents_eq_ok.1 loadEvents_oneCall
  ⟨hreturned, hholds, (recovered_answers {} "f()" oneCall).2.1 _ hreturned hholds⟩

/-- What an engine answers when a program has put a text of its own in place of the record buffer. -/
def forgedReply : EngineReply := { events := some "not json" }

theorem no_answer_forged : forgedReply.Returned ∧ ∃ fault, recovered (runProgram {} "x" forgedReply).1 = .error fault := by
  have hreturned : forgedReply.Returned := by decide
  have hnone : (loadEvents forgedReply.events).isOk = false := by decide +kernel
  rw [recovered_of_returned "x" hreturned]
  refine ⟨hreturned, ?_⟩
  cases hload : loadEvents forgedReply.events with
  | error fault => exact ⟨fault, rfl⟩
  | ok events =>
    rw [hload] at hnone
    cases hnone

end ScriptTrace
