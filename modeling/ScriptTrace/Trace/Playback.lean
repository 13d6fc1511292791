import ScriptTrace.Json.Inspect
import ScriptTrace.Trace.Frame

/-!
# Playback

The events of a run are folded into the frames that are shown. Every call, end of a call and printed line
gives a frame; a write gives one if it changes what is seen, or if a test waits to be told.

* `Scene` : the open calls, the globals and the printed lines;
* `Scene.after` : what an event changes in a scene;
* `Playback`, `Playback.step` : the fold;
* `playback` : the frames of a run.
-/

namespace ScriptTrace

/-- The text in which a value is told. -/
def displayText : Json → String
  | .str s => s
  | j => j.render

/-- What can be seen of a run. -/
structure Scene where
  /-- The open calls, innermost first. -/
  stack : List CallFrame := []
  globals : Fields Json := []
  stdout : List String := []
  deriving Inhabited, Repr

/-- What an event makes of a scene, and what else it tells. -/
structure Change where
  scene : Scene
  completed : Option CallFrame := none
  output : Option String := none
  returnValue : Json := .null
  deriving Inhabited, Repr

namespace Scene

def fingerprint (s : Scene) : String := ScriptTrace.fingerprint s.globals s.stack

/-- The call that an event opens. -/
def opened (e : Event) : CallFrame :=
  let function := match e.name with
    | none | some "" => "anonymous"
    | some name => name
  { function := function, line := e.line, args := e.args }

/-- Writes variables of the innermost open call; the globals if no call is open. -/
def write (s : Scene) (values : Fields Json) : Scene :=
  match s.stack with
  | top :: rest => { s with stack := { top with locals := top.locals.setAll values } :: rest }
  | [] => { s with globals := s.globals.setAll values }

/-- What an event makes of a scene. -/
def after (s : Scene) (e : Event) : Change :=
  match e.kind with
  | .call => { scene := { s with stack := opened e :: s.stack } }
  | .declare | .assign => { scene := s.write e.locals }
  | .ret =>
    { scene := { s with stack := s.stack.tail }
      completed := s.stack.head?.map fun c => { c with returnValue := e.value, returned := true }
      returnValue := e.value }
  | .throw => { scene := { s with stack := s.stack.tail }, completed := s.stack.head? }
  | .stdout =>
    let output := e.output.getD ""
    { scene := { s with stdout := s.stdout ++ [output] }, output := some output }
  | _ => { scene := s }

end Scene

/-- The state of the fold. -/
structure Playback where
  scene : Scene := {}
  /-- The fingerprint of the last frame. -/
  shown : Option String := none
  /-- A test that the next frame tells. -/
  pending : Option String := none
  frames : List Frame := []
  /-- After a failure no event counts. -/
  finished : Bool := false
  deriving Inhabited, Repr

/-- What is told of a test. -/
def testText (e : Event) : String :=
  "Tested \"" ++ e.expression.getD "None" ++ "\": " ++ displayText e.result

/-- The fingerprint of a state without calls and variables. -/
def emptyFingerprint : String := fingerprint [] []

namespace Playback

/-- Whether an event gives a frame: it is significant, a write after a test, or changes what is seen. -/
def shows (p : Playback) (e : Event) (scene : Scene) : Bool :=
  e.kind.isSignificant || (p.pending.isSome && e.kind.isWrite) ||
    scene.fingerprint != p.shown.getD emptyFingerprint

/-- The word for what happened, with a hint at a test before it. -/
def action (p : Playback) (e : Event) : String :=
  if p.pending.isSome then e.kind.word ++ " (after test)" else e.kind.word

/-- The picture after an event. -/
def picture (p : Playback) (e : Event) (c : Change) : Frame :=
  { action := p.action e
    line := e.line
    context := p.pending
    stack := c.scene.stack
    globals := c.scene.globals
    locals := visibleLocals c.scene.globals c.scene.stack c.completed
    stdout := c.scene.stdout
    output := c.output
    returnValue := c.returnValue
    completed := c.completed }

/-- Takes the change of an event that bears on what is seen. -/
def apply (p : Playback) (e : Event) : Playback :=
  let c := p.scene.after e
  if p.shows e c.scene then
    { p with
      scene := c.scene
      shown := some c.scene.fingerprint
      pending := none
      frames := p.frames ++ [p.picture e c] }
  else { p with scene := c.scene }

/-- Ends with the picture of a failure. -/
def fail (p : Playback) (e : Event) : Playback :=
  { p with
    scene := { p.scene with stack := [], globals := [] }
    pending := none
    frames := p.frames ++ [Frame.failed e.message e.line]
    finished := true }

/-- The state after an event. -/
def step (p : Playback) (e : Event) : Playback :=
  if p.finished then p else
  match e.kind with
  | .error => p.fail e
  | .test => { p with pending := some (testText e) }
  | .note _ => p
  | _ => p.apply e

/-- The state after some events. -/
def run (events : List Event) : Playback := events.foldl step {}

end Playback

/-- The frames of a run. -/
def playback (events : List Event) : List Frame := (Playback.run events).frames

end ScriptTrace
