import ScriptTrace.Schema

/-!
# Requests

The objects that a client sends, checked field by field.

* `RunRequest` : a program to run;
* `DrawingRequest` : a program whose syntax tree is to be drawn;
* `ExplanationRequest` : a program, and what is known of an error in it.
-/

namespace ScriptTrace

/-- A program to run. -/
structure RunRequest where
  code : String
  deriving Inhabited, Repr

/-- A program whose tree is to be drawn, with or without probes. -/
structure DrawingRequest where
  code : String
  instrumented : Bool := false
  deriving Inhabited, Repr

/-- A program and what is known of an error. -/
structure ExplanationRequest where
  code : String
  details : Fields Json
  deriving Inhabited, Repr

/-- The fields of a request; other values have none. -/
def requestFields : Json → Fields Json
  | .obj fields => fields
  | _ => []

def RunRequest.read (j : Json) : Checked RunRequest :=
  RunRequest.mk <$> required "code" Reading.text (requestFields j)

def DrawingRequest.read (j : Json) : Checked DrawingRequest :=
  DrawingRequest.mk <$> required "code" Reading.text (requestFields j)
    <*> defaulted "instrumented" false Reading.truth (requestFields j)

def ExplanationRequest.read (j : Json) : Checked ExplanationRequest :=
  ExplanationRequest.mk <$> required "code" Reading.text (requestFields j)
    <*> required "error_details" Reading.fields (requestFields j)

/-- What a running service answers when it is asked how it is. -/
def healthStatus : String := "ok"

end ScriptTrace
