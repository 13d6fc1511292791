import ScriptTrace.Schema
import ScriptTrace.Text.UpperCase

/-!
# Settings

* `Limits` : what one run may use; `Limits.read` checks limits that are given as an object;
* `Settings` : all that can be configured;
* `Settings.ofEnvironment` : the settings that environment variables give. A number that cannot be read or
  is not positive counts as not given.
-/

namespace ScriptTrace

/-- What one run may use. -/
structure Limits where
  /-- Seconds. -/
  timeLimit : Binary64 := .ofInt 2
  /-- Bytes. -/
  memoryLimit : Int := 64 * 1024 * 1024
  /-- Bytes. -/
  maxStack : Int := 1024 * 1024
  /-- Recorded events. -/
  maxEvents : Int := 10000
  deriving Inhabited, Repr

namespace Limits

/-- Limits from an object; those that are missing have their default. -/
def read : Json → Checked Limits
  | .obj fields =>
    Limits.mk
      <$> defaulted "time_limit" (Limits.timeLimit {}) Reading.number fields
      <*> defaulted "memory_limit" (Limits.memoryLimit {}) Reading.integer fields
      <*> defaulted "max_stack" (Limits.maxStack {}) Reading.integer fields
      <*> defaulted "max_events" (Limits.maxEvents {}) Reading.integer fields
  | .null => .valid {}
  | _ => .invalid [⟨"", .notRecord⟩]

end Limits

/-- All that can be configured. -/
structure Settings where
  limits : Limits := {}
  corsOrigins : List String := ["*"]
  apiKey : String := ""
  model : String := "gemini-1.5-flash"
  logLevel : String := "INFO"
  deriving Inhabited, Repr

namespace Settings

/-- A positive number from a variable; anything else gives the default. -/
def positiveOr {α : Type} (default : α) (read : String → Option α) (nonPositive : α → Bool)
    (raw : Option String) : α :=
  match raw.bind read with
  | some value => if nonPositive value then default else value
  | none => default

def integerOr (default : Int) (raw : Option String) : Int := positiveOr default readInteger (· ≤ 0) raw

def decimalOr (default : Binary64) (raw : Option String) : Binary64 :=
  positiveOr default (readDecimal decimalDigit?) Binary64.isNonPositive raw

/-- The parts of a text between commas. -/
def commaParts : List Char → List (List Char)
  | [] => [[]]
  | ',' :: cs => [] :: commaParts cs
  | c :: cs =>
    match commaParts cs with
    | part :: others => (c :: part) :: others
    | [] => [[c]]

/-- The parts of a text between commas, without space around them and without empty ones. -/
def origins (text : String) : List String :=
  (commaParts text.toList |>.map fun part => String.ofList (trimChars isBlank part)).filter (· != "")

/-- The origins that a text lists; every origin if it lists none. -/
def originsOr (text : String) : List String :=
  match origins text with
  | [] => ["*"]
  | listed => listed

/-- The settings that environment variables give. -/
def ofEnvironment (environment : Fields String) : Settings :=
  let default : Settings := {}
  let value (name : String) : Option String := Fields.get? name environment
  { limits := {
      timeLimit := decimalOr default.limits.timeLimit (value "TRACER_TIME_LIMIT")
      memoryLimit := integerOr default.limits.memoryLimit (value "TRACER_MEMORY_LIMIT")
      maxStack := integerOr default.limits.maxStack (value "TRACER_MAX_STACK")
      maxEvents := integerOr default.limits.maxEvents (value "TRACER_MAX_EVENTS") }
    corsOrigins := (value "TRACER_CORS_ORIGINS").elim default.corsOrigins originsOr
    apiKey := (value "GEMINI_API_KEY").getD default.apiKey
    model := (value "GEMINI_MODEL").getD default.model
    logLevel := upperCase ((value "LOG_LEVEL").getD default.logLevel) }

end Settings

end ScriptTrace
