/-!
# Sets of characters as code point ranges

The tables of character properties are lists of closed ranges, in increasing order.
-/

namespace ScriptTrace

/-- Closed ranges of code points. -/
abbrev CharTable := List (Nat × Nat)

/-- Whether the code point of `c` lies in one of the ranges. -/
def CharTable.contains (table : CharTable) (c : Char) : Bool :=
  table.any fun (low, high) => low ≤ c.toNat && c.toNat ≤ high

end ScriptTrace
