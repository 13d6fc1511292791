import ScriptTrace.Json.Inspect

/-!
# What can be wrong with a syntax tree

A syntax tree arrives as plain JSON and may be malformed in any way. A fault says what was met first.
-/

namespace ScriptTrace

/-- The two forms in which a node is printed. -/
inductive Form where
  | statement
  | expression
  deriving DecidableEq, Repr

def Form.name : Form → String
  | .statement => "statement"
  | .expression => "expression"

/-- The first thing found wrong with a tree. -/
inductive Fault where
  /-- An object has no value under a key that is needed. -/
  | missing (key : Json)
  /-- A value is of the wrong kind to be read, iterated over or put into text. -/
  | wrongKind
  /-- A value does not offer the operation asked of it. -/
  | unsupported
  /-- No printed form is known for a type of node. -/
  | unprintable (form : Form) (type : String)
  /-- The nesting exceeds the bound computed from the tree. -/
  | tooDeep
  deriving Inhabited, Repr

namespace Fault

/-- The description of a fault; none where it is not told. -/
def message? : Fault → Option String
  | missing key => some key.inspect
  | unprintable form type => some ("Cannot generate " ++ form.name ++ " " ++ type)
  | _ => none

end Fault

end ScriptTrace
