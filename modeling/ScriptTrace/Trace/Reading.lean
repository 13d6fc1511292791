import ScriptTrace.Json.Inspect
import ScriptTrace.Json.Parser
import ScriptTrace.Schema
import ScriptTrace.Trace.Event

/-!
# Reading events back

* `Event.read` : the event that an object describes, or all that is wrong with it;
* `Event.readFailure` : the event of a failed run, from a message and a line;
* `loadEvents` : the events in the text of a record buffer.
-/

namespace ScriptTrace

namespace Event

/-- Unknown fields do not matter; missing ones have their default. -/
def read : Json → Checked Event
  | .obj fields =>
    Event.mk
      <$> (Kind.ofWord <$> required "kind" Reading.text fields)
      <*> defaulted "line" (-1) Reading.integer fields
      <*> defaulted "name" none Reading.optionalText fields
      <*> defaulted "args" [] Reading.fields fields
      <*> defaulted "locals" [] Reading.fields fields
      <*> defaulted "value" .null Reading.any fields
      <*> defaulted "expression" none Reading.optionalText fields
      <*> defaulted "result" .null Reading.any fields
      <*> defaultedAs "loopType" "loop_type" none Reading.optionalText fields
      <*> defaulted "output" none Reading.optionalText fields
      <*> defaultedAs "className" "class_name" none Reading.optionalText fields
      <*> defaulted "message" none Reading.optionalText fields
  | _ => .invalid [⟨"", .notRecord⟩]

/-- The event of a failed run; the line may be missing. -/
def readFailure (message : Json) (line : Option Json) : Checked Event :=
  read (.obj ([("kind", .str Kind.error.word), ("message", message)] ++ (line.map ("line", ·)).toList))

/-- The first event that is invalid decides. -/
def readAll (values : List Json) : Except (List Issue) (List Event) := Checked.readAll read values

end Event

/-- Why a record buffer cannot be read. -/
inductive BufferFault where
  /-- The text cannot be read. -/
  | misread (misreading : Json.Misreading)
  /-- The value holds no items. -/
  | noItems (value : Json)
  /-- An item is no event. -/
  | badEvent (issues : List Issue)
  deriving Inhabited

namespace BufferFault

/-- The description of a fault. -/
def text : BufferFault → String
  | misread misreading => misreading.text
  | noItems value => inspectString value.kindWord ++ " object is not iterable"
  | badEvent issues => Issue.summary issues

end BufferFault

/-- The items of a value: of an object its names, of a string its characters. -/
def itemsOf? : Json → Option (List Json)
  | .arr items => some items
  | .obj fields => some (fields.map (.str ·.1))
  | .str s => some (s.toList.map (.str ·.toString))
  | _ => none

/-- The events of a record buffer; no text is an empty buffer. -/
def loadEvents (payload : Option String) : Except BufferFault (List Event) :=
  match payload.getD "" with
  | "" => .ok []
  | text =>
    match Json.parse text with
    | .error misreading => .error (.misread misreading)
    | .ok j =>
      match itemsOf? j with
      | none => .error (.noItems j)
      | some items => (Event.readAll items).mapError .badEvent

end ScriptTrace
