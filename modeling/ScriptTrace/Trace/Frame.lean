import ScriptTrace.Json.Printer
import ScriptTrace.Schema
import ScriptTrace.Text.Affix
import ScriptTrace.Trace.Event

/-!
# Frames

A frame is what is shown after one event: the open calls, the variables and what was printed so far.
Stacks are held innermost call first, and written outermost call first.

* `CallFrame` : an open call, or the call that an event completed;
* `Frame` : one picture of the run;
* `Frame.failed` : the picture of a failed run;
* `fingerprint` : a text that two states share exactly if they look alike;
* `visibleLocals` : the variables in sight, inner ones hiding outer ones.
-/

namespace ScriptTrace

/-- One call of a function. -/
structure CallFrame where
  function : String
  line : Int := -1
  args : Fields Json := []
  locals : Fields Json := []
  returnValue : Json := .null
  returned : Bool := false
  deriving Inhabited, Repr

namespace CallFrame

def toJson (c : CallFrame) : Json := .obj [
  ("function", .str c.function),
  ("line", .int c.line),
  ("args", .obj c.args),
  ("locals", .obj c.locals),
  ("returnValue", c.returnValue),
  ("returned", .bool c.returned)]

/-- The call that an object describes. -/
def read : Json → Checked CallFrame
  | .obj fields =>
    CallFrame.mk
      <$> required "function" Reading.text fields
      <*> defaulted "line" (-1) Reading.integer fields
      <*> defaulted "args" [] Reading.fields fields
      <*> defaulted "locals" [] Reading.fields fields
      <*> defaultedAs "returnValue" "return_value" .null Reading.any fields
      <*> defaulted "returned" false Reading.truth fields
  | _ => .invalid [⟨"", .notRecord⟩]

end CallFrame

/-- The calls of a stack, outermost first. -/
def stackJson (stack : List CallFrame) : Json := .arr (stack.reverse.map (·.toJson))

/-- One picture of a run. -/
structure Frame where
  action : String
  line : Int := -1
  context : Option String := none
  stack : List CallFrame := []
  globals : Fields Json := []
  locals : Fields Json := []
  stdout : List String := []
  output : Option String := none
  returnValue : Json := .null
  completed : Option CallFrame := none
  error : Option String := none
  deriving Inhabited, Repr

namespace Frame

/-- A field that is left out when it has no value. -/
def optionalField {α : Type} (name : String) (toJson : α → Json) (value : Option α) : Fields Json :=
  (value.map fun v => (name, toJson v)).toList

/-- The object that is sent to be shown; only the end of a call has a return value. -/
def toJson (f : Frame) : Json := .obj (
  [("action", .str f.action), ("line", .int f.line)] ++
  optionalField "context" .str f.context ++
  [("stack", stackJson f.stack), ("globals", .obj f.globals), ("locals", .obj f.locals),
    ("stdout", .arr (f.stdout.map .str))] ++
  optionalField "output" .str f.output ++
  (if startsWith "return" f.action then [("returnValue", f.returnValue)] else []) ++
  optionalField "completed" CallFrame.toJson f.completed ++
  optionalField "error" .str f.error)

/-- The picture of a failed run. -/
def failed (message : Option String) (line : Int) : Frame :=
  let text := match message with
    | none | some "" => "Unknown error"
    | some text => text
  { action := Kind.error.word, line := line, error := some text }

end Frame

/-! ## States -/

/-- The part of a call that tells two states apart. -/
def CallFrame.signature (c : CallFrame) : Json := .arr [.str c.function, .obj c.args, .obj c.locals]

/-- The text of the variables and calls of a state. -/
def fingerprint (globals : Fields Json) (stack : List CallFrame) : String :=
  (Json.obj [("globals", .obj globals), ("stack", .arr (stack.reverse.map (·.signature)))]).render

/-- Adds the variables of a call; its locals hide its arguments. -/
def addCall (view : Fields Json) (c : CallFrame) : Fields Json := (view.setAll c.args).setAll c.locals

/-- The globals, then each call from the outermost to the innermost, then the completed call. -/
def visibleLocals (globals : Fields Json) (stack : List CallFrame) (completed : Option CallFrame) : Fields Json :=
  (stack.reverse ++ completed.toList).foldl addCall globals

end ScriptTrace
