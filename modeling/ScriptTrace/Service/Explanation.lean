import ScriptTrace.Json.Inspect
import ScriptTrace.Sandbox.Settings
import ScriptTrace.Service.Request
import ScriptTrace.Text.Affix

/-!
# Explaining errors

An error is explained by a language model, if there is a key for one, else by a hint that goes by how the
message starts. What the model answers is given.

* `localExplanation` : the explanation from hints;
* `Prompt` : what the model is asked;
* `explain` : the explanation, and what the model was asked, if it was.
-/

namespace ScriptTrace

/-- How messages start, and what such errors mean. -/
def hints : List (String × String) := [
  ("ReferenceError", "A name is used that was never declared, or it is used before its declaration runs."),
  ("TypeError", "A value was used in a way its type does not allow, such as calling something that is " ++
    "not a function or reading a property of undefined/null."),
  ("SyntaxError", "The code could not be parsed. Look for a missing bracket, parenthesis or comma near the " ++
    "reported line."),
  ("RangeError", "A value was out of its allowed range; very deep recursion is the usual cause."),
  ("Execution timed out", "The program kept running past its budget. Check that every loop can end and that " ++
    "recursion has a base case.")]

/-- The hint of the first start that fits; without one the message alone. -/
def localExplanation (message : String) : String :=
  match hints.find? fun hint => startsWith hint.1 message with
  | some (_, hint) => hint ++ " (" ++ message ++ ")"
  | none => "The program stopped with: " ++ message

/-- The first of two values that counts as true, shown; nothing if neither does. -/
def firstShown (a b : Json) : String :=
  if a.truthy then a.shown else if b.truthy then b.shown else ""

/-- The message in what is known of an error. -/
def errorMessage (details : Fields Json) : String :=
  firstShown ((Json.obj details).field "error_message") ((Json.obj details).field "error")

/-- The line in what is known of an error, under the first name that is there. -/
def errorLine (details : Fields Json) : Json :=
  (Fields.get? "line_number" details).getD ((Json.obj details).field "line")

/-- What the model is asked. -/
structure Prompt where
  model : String
  text : String
  deriving Inhabited, Repr

/-- The question about an error in a program. -/
def Prompt.about (model : String) (request : ExplanationRequest) : Prompt :=
  let lines := [
    "You are an expert JavaScript programming tutor.",
    "Explain this error in simple terms:",
    "Code: " ++ request.code,
    "Error: " ++ errorMessage request.details ++ " on line " ++ (errorLine request.details).shown,
    ""]
  ⟨model, String.join (lines.map ("\n        " ++ ·))⟩

/-- The explanation of an error; `answer` is what the model answers, none if it fails. -/
def explain (settings : Settings) (answer : Option String) (request : ExplanationRequest) : String × Option Prompt :=
  let local_ := localExplanation (errorMessage request.details)
  if settings.apiKey = "" then (local_, none)
  else (answer.getD local_, some (.about settings.model request))

end ScriptTrace
