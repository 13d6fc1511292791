import ScriptTrace.Json.Basic
import ScriptTrace.Number.Layout
import ScriptTrace.Text.Printable
import ScriptTrace.Text.Quoted

/-!
# Values inside messages and labels

The form in which a value is shown to a reader: `True`, `False` and `None` for truth values and null,
strings in single quotes unless they hold a single quote and no double one, fields in the order
written. A string that is shown by itself has no quotes.

* `Json.inspect` : the form inside other values;
* `Json.shown` : the form of a whole value;
* `Json.kindWord` : the word for the kind of a value.
-/

namespace ScriptTrace

/-- A code point as an escape of the shortest kind that fits. -/
def inspectCode (n : Nat) : List Char :=
  if n < 0x100 then '\\' :: 'x' :: hexDigits 2 n
  else if n < 0x10000 then '\\' :: 'u' :: hexDigits 4 n
  else '\\' :: 'U' :: hexDigits 8 n

def inspectChar (mark : Char) (c : Char) : List Char :=
  if c = mark ∨ c = '\\' then ['\\', c]
  else if c = '\n' then ['\\', 'n']
  else if c = '\r' then ['\\', 'r']
  else if c = '\t' then ['\\', 't']
  else if isPrintable c then [c]
  else inspectCode c.toNat

/-- A string in the kind of quotes that need fewer escapes. -/
def inspectString (s : String) : String :=
  let cs := s.toList
  let mark := if cs.contains '\'' && !cs.contains '"' then '"' else '\''
  String.ofList (mark :: (cs.flatMap (inspectChar mark) ++ [mark]))

namespace Json

mutual

def inspect : Json → String
  | null => "None"
  | bool b => if b then "True" else "False"
  | int n => toString n
  | float x => x.text
  | str s => inspectString s
  | arr items => "[" ++ ", ".intercalate (inspectItems items) ++ "]"
  | obj fields => "\x7b" ++ ", ".intercalate (inspectFields fields) ++ "\x7d"

def inspectItems : List Json → List String
  | [] => []
  | x :: xs => inspect x :: inspectItems xs

def inspectFields : List (String × Json) → List String
  | [] => []
  | (k, x) :: xs => (inspectString k ++ ": " ++ inspect x) :: inspectFields xs

end

/-- The word for the kind of a value. -/
def kindWord : Json → String
  | null => "NoneType"
  | bool _ => "bool"
  | int _ => "int"
  | float _ => "float"
  | str _ => "str"
  | arr _ => "list"
  | obj _ => "dict"

/-- A value by itself: a string stands for itself. -/
def shown : Json → String
  | str s => s
  | j => j.inspect

end Json

end ScriptTrace
