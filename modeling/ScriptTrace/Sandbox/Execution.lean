import ScriptTrace.Number.Layout
import ScriptTrace.Probe.Prelude
import ScriptTrace.Sandbox.Settings
import ScriptTrace.Text.Blank
import ScriptTrace.Trace.Reading

/-!
# Running an instrumented program

The engine that runs programs is a program of its own; what it answers is given. A run prepares the engine,
evaluates the program, asks whether the budget of events was exceeded, and reads the events back.

* `EngineReply` : what the engine answers in a run; `Engine` : the same, unless its runtime does not start;
* `EngineCall` : what is asked of the engine;
* `RunFault`, `SessionFault` : why there are no events;
* `runProgram` : the events of a run, and all calls made, in order;
* `recovered` : the same with one failure event in place of a failed run;
* `Engine.run` : a run from its start, which no failure event stands for.
-/

namespace ScriptTrace

/-- What the engine answers in a run, once the runtime is there. -/
structure EngineReply where
  /-- The text of the exception that ends the program. -/
  thrown : Option String := none
  /-- Whether the budget was exceeded; none if asking throws. -/
  exceeded : Option Bool := some false
  /-- The text of the record buffer. -/
  events : Option String := none
  deriving Inhabited, Repr

/-- An engine from its start. The limits are sizes that it takes; small ones leave no room for the runtime. -/
structure Engine where
  /-- The text of the exception that ends the evaluation of the runtime. -/
  unready : Option String := none
  /-- What is answered once the runtime is there. -/
  reply : EngineReply
  deriving Inhabited, Repr

instance : Coe EngineReply Engine := ⟨fun reply => { reply }⟩

/-- What is asked of the engine. -/
inductive EngineCall where
  | limitMemory (bytes : Int)
  | limitStack (bytes : Int)
  | limitTime (seconds : Binary64)
  /-- Evaluates the source of the probe runtime. -/
  | installRuntime (source : String)
  /-- Evaluates the source of the program. -/
  | runProgram (source : String)
  | readExceeded
  | readEvents
  deriving DecidableEq, Repr

/-- Why a run did not end well. -/
inductive RunFault where
  /-- More events than allowed were recorded. -/
  | outOfEvents (maxEvents : Int)
  /-- The time limit was reached. -/
  | outOfTime (seconds : Binary64)
  /-- The program threw. -/
  | threw (message : String)
  deriving Inhabited, DecidableEq, Repr

namespace RunFault

/-- What is told of a run that did not end well. -/
def message : RunFault → String
  | outOfEvents n => "Execution timed out: your program did not finish within " ++ toString n ++ " steps"
  | outOfTime x => "Execution timed out: your program did not finish within " ++ x.sixDigits ++ "s"
  | threw message => message

end RunFault

/-- What the engine throws when the time limit is reached. -/
def interruptedText : String := "InternalError: interrupted"

/-- The first line of an exception's text without space around it. -/
def thrownMessage (text : String) : String :=
  match strip text with
  | "" => "Unknown error"
  | text => strip (firstLine text)

/-- The fault that the text of an exception stands for. -/
def RunFault.ofThrown (limits : Limits) (text : String) : RunFault :=
  let message := thrownMessage text
  if message = interruptedText then .outOfTime limits.timeLimit else .threw message

/-- Why there are no events. -/
inductive SessionFault where
  /-- The run did not end well. -/
  | failed (fault : RunFault)
  /-- The run ended, but its events cannot be read back. -/
  | unreadable (fault : BufferFault)
  deriving Inhabited

/-- A dialogue with the engine: an answer or a fault, and the calls made. -/
abbrev Session := ExceptT SessionFault (StateM (List EngineCall))

namespace Session

/-- Notes a call. -/
def call (c : EngineCall) : Session Unit := modify (· ++ [c])

/-- Limits and runtime. -/
def install (limits : Limits) : Session Unit := do
  call (.limitMemory limits.memoryLimit)
  call (.limitStack limits.maxStack)
  call (.installRuntime (Prelude.source limits.maxEvents))

/-- Limits and runtime; the time limit starts once the runtime is there. -/
def prepare (limits : Limits) : Session Unit := do
  install limits
  call (.limitTime limits.timeLimit)

/-- Runs the program; a budget that was exceeded outweighs what the program threw. -/
def execute (limits : Limits) (source : String) (reply : EngineReply) : Session (List Event) := do
  prepare limits
  call (.runProgram source)
  call .readExceeded
  if reply.exceeded.getD false then throw (.failed (.outOfEvents limits.maxEvents))
  match reply.thrown with
  | some text => throw (.failed (.ofThrown limits text))
  | none =>
    call .readEvents
    match loadEvents reply.events with
    | .ok events => return events
    | .error fault => throw (.unreadable fault)

end Session

/-- The events of a run, and the calls made. -/
def runProgram (limits : Limits) (source : String) (reply : EngineReply) :
    Except SessionFault (List Event) × List EngineCall :=
  (Session.execute limits source reply).run.run []

/-- One failure event in place of a run that did not end well. -/
def recovered : Except SessionFault (List Event) → Except BufferFault (List Event)
  | .ok events => .ok events
  | .error (.failed fault) => .ok [.failed fault.message]
  | .error (.unreadable fault) => .error fault

/-- A run from its start: its end, or the text of an exception of the runtime, which nothing is put in place of; and
the calls made. -/
def Engine.run (engine : Engine) (limits : Limits) (source : String) :
    Except String (Except SessionFault (List Event)) × List EngineCall :=
  match engine.unready with
  | some text => (.error text, ((Session.install limits).run.run []).2)
  | none =>
    let (r, calls) := runProgram limits source engine.reply
    (.ok r, calls)

end ScriptTrace
