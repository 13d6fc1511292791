/-!
# Precedence of expressions

Levels from loosest to tightest. An expression that binds less tightly than its place requires is
printed in parentheses.
-/

namespace ScriptTrace

abbrev Precedence := Nat

namespace Precedence

def sequence : Precedence := 0
def assign : Precedence := 1
def conditional : Precedence := 2
def unary : Precedence := 14
def postfixOp : Precedence := 15
def call : Precedence := 16
def member : Precedence := 17
def primary : Precedence := 18

/-- The level of a binary or logical operator. -/
def binary? : String → Option Precedence
  | "||" | "??" => some 3
  | "&&" => some 4
  | "|" => some 5
  | "^" => some 6
  | "&" => some 7
  | "==" | "!=" | "===" | "!==" => some 8
  | "<" | ">" | "<=" | ">=" | "in" | "instanceof" => some 9
  | "<<" | ">>" | ">>>" => some 10
  | "+" | "-" => some 11
  | "*" | "/" | "%" => some 12
  | "**" => some 13
  | _ => none

end Precedence

end ScriptTrace
