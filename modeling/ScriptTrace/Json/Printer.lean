import ScriptTrace.Json.Basic
import ScriptTrace.Number.Layout
import ScriptTrace.Text.Quoted

/-!
# Canonical JSON text

One line of ASCII: fields in the order of their names by code point, `, ` between items and `: ` after
a name. Values that differ only in the order of fields have the same text.

* `Json.render` : the text;
* `byName` : fields in the order of their names.
-/

namespace ScriptTrace

/-- Inserts a field before the first with a greater name. -/
def insertByName {α : Type} (f : String × α) : Fields α → Fields α
  | [] => [f]
  | g :: rest => if g.1 ≤ f.1 then g :: insertByName f rest else f :: g :: rest

/-- Fields in the order of their names by code point. -/
def byName {α : Type} : Fields α → Fields α
  | [] => []
  | f :: rest => insertByName f (byName rest)

namespace Json

/-- A number in JSON text; the special values have words of their own. -/
def floatText : Binary64 → String
  | .infinite negative => if negative then "-Infinity" else "Infinity"
  | .nan => "NaN"
  | x => x.text

def boolText (b : Bool) : String := if b then "true" else "false"

mutual

/-- The canonical text of a value. -/
def render : Json → String
  | null => "null"
  | bool b => boolText b
  | int n => toString n
  | float x => floatText x
  | str s => quoteAscii s
  | arr items => "[" ++ ", ".intercalate (renderItems items) ++ "]"
  | obj fields =>
    let member (f : String × String) : String := quoteAscii f.1 ++ ": " ++ f.2
    "\x7b" ++ ", ".intercalate ((byName (renderFields fields)).map member) ++ "\x7d"

def renderItems : List Json → List String
  | [] => []
  | x :: xs => render x :: renderItems xs

def renderFields : List (String × Json) → Fields String
  | [] => []
  | (k, x) :: xs => (k, render x) :: renderFields xs

end

end Json

end ScriptTrace
