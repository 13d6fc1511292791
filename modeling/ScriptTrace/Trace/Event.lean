import ScriptTrace.Json.Basic

/-!
# Events

An instrumented program records an event for every step that can be shown. The kind of an event tells
which of its fields mean something.

* `Kind` : what happened; kinds without a meaning of their own are kept by their word;
* `Event` : one record;
* `Event.toJson` : the record with all fields.
-/

namespace ScriptTrace

/-- What an event reports. -/
inductive Kind where
  /-- A function starts. -/
  | call
  /-- A function ends with a value. -/
  | ret
  /-- An exception leaves a function. -/
  | throw
  /-- A line is printed. -/
  | stdout
  | declare
  | assign
  /-- A condition was computed. -/
  | test
  /-- The run failed. -/
  | error
  /-- Anything else: for information only. -/
  | note (word : String)
  deriving DecidableEq, Repr, Inhabited

namespace Kind

def word : Kind → String
  | call => "call"
  | ret => "return"
  | throw => "throw"
  | stdout => "stdout"
  | declare => "declare"
  | assign => "assign"
  | test => "test"
  | error => "error"
  | note word => word

/-- The kinds with a meaning of their own. -/
def known : List Kind := [call, ret, throw, stdout, declare, assign, test, error]

def ofWord (word : String) : Kind := (known.find? (·.word == word)).getD (.note word)

@[simp] theorem word_ofWord (word : String) : (ofWord word).word = word := by
  unfold ofWord
  cases h : known.find? (·.word == word) with
  | none => rfl
  | some k => simpa using List.find?_some h

/-- A write to variables. -/
def isWrite : Kind → Bool
  | declare | assign => true
  | _ => false

/-- Kinds that are shown whether or not a variable changes. -/
def isSignificant : Kind → Bool
  | call | ret | throw | stdout => true
  | _ => false

/-- The end of a call. -/
def isClosing : Kind → Bool
  | ret | throw => true
  | _ => false

end Kind

/-- One record of a run, in the order of recording. -/
structure Event where
  kind : Kind
  line : Int := -1
  name : Option String := none
  args : Fields Json := []
  locals : Fields Json := []
  value : Json := .null
  expression : Option String := none
  result : Json := .null
  loopType : Option String := none
  output : Option String := none
  className : Option String := none
  message : Option String := none
  deriving Inhabited, Repr

/-- A text, or null. -/
def Json.ofText? : Option String → Json
  | some s => .str s
  | none => .null

namespace Event

/-- The record as an object with all fields. -/
def toJson (e : Event) : Json := .obj [
  ("kind", .str e.kind.word),
  ("line", .int e.line),
  ("name", .ofText? e.name),
  ("args", .obj e.args),
  ("locals", .obj e.locals),
  ("value", e.value),
  ("expression", .ofText? e.expression),
  ("result", e.result),
  ("loopType", .ofText? e.loopType),
  ("output", .ofText? e.output),
  ("className", .ofText? e.className),
  ("message", .ofText? e.message)]

/-- The event that stands for a failed run. -/
def failed (message : String) : Event := { kind := .error, message := some message }

end Event

end ScriptTrace
