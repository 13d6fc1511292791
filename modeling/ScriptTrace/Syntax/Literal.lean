import ScriptTrace.Json.Inspect
import ScriptTrace.Json.Printer

/-!
# Literals in program text

The text of a literal for a JSON value: strings in double quotes, whole numbers without a point.
-/

namespace ScriptTrace

/-- A number; one without a fraction is written as an integer. -/
def floatLiteral (x : Binary64) : String :=
  match x.toInt? with
  | some n => toString n
  | none => x.text

/-- The literal that stands for a value. Arrays and objects have no literal and are only shown. -/
def literalText : Json → String
  | .null => "null"
  | .bool b => Json.boolText b
  | .int n => toString n
  | .float x => floatLiteral x
  | .str s => quote s
  | j => j.inspect

end ScriptTrace
