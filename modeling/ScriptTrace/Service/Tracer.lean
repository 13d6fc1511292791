import ScriptTrace.Sandbox.Execution
import ScriptTrace.Service.Source
import ScriptTrace.Trace.Playback
import ScriptTrace.Trace.Run

/-!
# Tracing a program

From source text to frames: the program is parsed and instrumented, run, and the last run of its functions
is played back.

* `TraceFault` : why there are no frames at all;
* `trace` : the frames of a program; a program that is rejected, and a run that does not end well, give one
  frame that tells so;
* `runCode` : the frames of a program in any case.
-/

namespace ScriptTrace

/-- Why tracing gives no frames. -/
inductive TraceFault where
  /-- Reading or instrumenting the program failed. -/
  | uninstrumented (refusal : Refusal)
  /-- The events cannot be read back. -/
  | unreadable (fault : BufferFault)
  deriving Inhabited

namespace TraceFault

/-- The description of a fault, as far as it is told. -/
def text : TraceFault → String
  | uninstrumented (.rejected reason) => reason.message?.getD ""
  | uninstrumented (.escaped fault) => fault.message?.getD ""
  | uninstrumented (.crashed text) => text
  | unreadable fault => fault.text

end TraceFault

/-- The frames of recorded events. -/
def framesOf (events : List Event) : List Frame := playback (selectRun events)

/-- The frames of a run of the engine. -/
def traceRun (limits : Limits) (source : String) (reply : EngineReply) : Except TraceFault (List Frame) :=
  ((recovered (runProgram limits source reply).1).mapError .unreadable).map framesOf

/-- The frames of a program, and the instrumented text that was run, if any. -/
def trace (limits : Limits) (code : String) (parser : ParserReply) (engine : EngineReply) :
    Except TraceFault (List Frame) × Option String :=
  match instrumentSource code parser with
  | .error (.rejected reason) => (.ok [.failed reason.message? (-1)], none)
  | .error refusal => (.error (.uninstrumented refusal), none)
  | .ok source => (traceRun limits source engine, some source)

/-- The one frame of a fault that nothing else tells. -/
def internalFailure (text : String) : List Frame := [.failed (some ("Internal tracer error: " ++ text)) (-1)]

/-- The frames of a program; any fault gives one frame that tells it. The engine starts once there is a program to run,
and what its runtime throws is such a fault. -/
def runCode (code : String) (parser : ParserReply) (engine : Engine) (limits : Limits := {}) : List Frame :=
  match trace limits code parser engine.reply, engine.unready with
  | (_, some _), some text => internalFailure text
  | (.ok frames, _), _ => frames
  | (.error fault, _), _ => internalFailure fault.text

end ScriptTrace
