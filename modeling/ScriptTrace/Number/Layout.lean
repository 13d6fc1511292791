import ScriptTrace.Number.Binary64

/-!
# Decimal text of binary64 numbers

A number is written in two steps: a choice of significant digits, and a layout for them.

* `Binary64.shortest` : the fewest digits that read back, of those the nearest to the number;
* `Binary64.significant` : a fixed count of digits, correctly rounded, a tie going to the even digit;
* `NumberLayout` : which powers of ten are written positionally, and whether `.0` is kept;
* `Binary64.text`, `Binary64.sixDigits` : the two written forms in use.
-/

namespace ScriptTrace

/-- Significant digits `d₀d₁…` and the power of ten of `d₀`: the value `d₀.d₁… · 10 ^ power`. -/
structure Digits where
  value : Nat
  power : Int
  deriving DecidableEq, Repr

namespace Digits

/-- The digits from first to last. -/
def chars (d : Digits) : List Char := Nat.toDigits 10 d.value

/-- The same value without zeros at the end. -/
def trim (d : Digits) : Digits :=
  let rec strip : Nat → Nat → Nat
    | 0, v => v
    | n + 1, v => if v % 10 = 0 ∧ v ≠ 0 then strip n (v / 10) else v
  { d with value := strip d.chars.length d.value }

end Digits

namespace Binary64

/-- The power of ten of the first digit of `a / b`, for `a` positive. -/
def leadingPower (a b : Nat) : Int :=
  let p : Int := (digitCount a : Int) - digitCount b
  if (if 0 ≤ p then b * Nat.pow 10 p.toNat ≤ a else b ≤ a * Nat.pow 10 (-p).toNat) then p else p - 1

/-- The quotient `(a / b) / 10 ^ k` as numerator and denominator. -/
def onGrid (a b : Nat) (k : Int) : Nat × Nat :=
  if 0 ≤ k then (a, b * Nat.pow 10 k.toNat) else (a * Nat.pow 10 (-k).toNat, b)

/-- Digits of a whole number of grid steps `10 ^ k`. -/
def gridDigits (d : Nat) (k : Int) : Digits :=
  ⟨d, k + (digitCount d : Int) - 1⟩

/-- The numbers that round to `m · 2 ^ e`, in quarters of `2 ^ e`: both ends, and whether they belong. -/
def roundingInterval (m : Nat) (e : Int) : Nat × Nat × Bool :=
  let low := if m = Nat.pow 2 (precision - 1) ∧ minExponent < e then 4 * m - 1 else 4 * m - 2
  (low, 4 * m + 2, m % 2 == 0)

/-- The point of the grid with steps `10 ^ k` that reads back as `m · 2 ^ e` and is nearest to it. -/
def gridPoint? (m : Nat) (e : Int) (k : Int) : Option Nat :=
  let (low, high, closed) := roundingInterval m e
  let (unit, den) := ratio 1 (e - 2)
  let (v, b) := onGrid (4 * m * unit) den k
  let (lo, _) := onGrid (low * unit) den k
  let (hi, _) := onGrid (high * unit) den k
  let inside (d : Nat) : Bool := if closed then lo ≤ d * b && d * b ≤ hi else lo < d * b && d * b < hi
  let below := v / b
  let above := below + 1
  match inside below, inside above with
  | true, true => some (roundHalfEven v b)
  | true, false => some below
  | false, true => some above
  | false, false => none

/-- The first grid with a point that reads back; seventeen digits always do. -/
def shortestFrom (m : Nat) (e : Int) (power : Int) : Nat → Nat → Digits
  | 0, n => gridDigits ((gridPoint? m e (power - n + 1)).getD m) (power - n + 1)
  | more + 1, n =>
    match gridPoint? m e (power - n + 1) with
    | some d => gridDigits d (power - n + 1)
    | none => shortestFrom m e power more (n + 1)

/-- The fewest digits that read back as `m · 2 ^ e`, for `m` positive. -/
def shortest (m : Nat) (e : Int) : Digits :=
  let (a, b) := ratio m e
  (shortestFrom m e (leadingPower a b) 16 1).trim

/-- The nearest value with `count` significant digits to `m · 2 ^ e`, for `m` positive. -/
def significant (count : Nat) (m : Nat) (e : Int) : Digits :=
  let (a, b) := ratio m e
  let k := leadingPower a b - count + 1
  let (v, g) := onGrid a b k
  (gridDigits (roundHalfEven v g) k).trim

end Binary64

/-- How digits become text: powers of ten from `least` to `greatest` are written positionally, all
others with an exponent; `keepPoint` writes a whole number with `.0`. -/
structure NumberLayout where
  least : Int
  greatest : Int
  keepPoint : Bool

namespace NumberLayout

/-- A power of ten with its sign and at least two digits. -/
def exponentText (power : Int) : String :=
  let digits := String.ofList (Nat.toDigits 10 power.natAbs)
  (if power < 0 then "e-" else "e+") ++ (if power.natAbs < 10 then "0" ++ digits else digits)

/-- Digits around a decimal point, filled up with zeros. -/
def positional (layout : NumberLayout) (digits : List Char) (power : Int) : String :=
  if power < 0 then
    "0." ++ String.ofList (List.replicate ((-power).toNat - 1) '0' ++ digits)
  else
    let whole := digits.take (power.toNat + 1)
    let filled := whole ++ List.replicate (power.toNat + 1 - whole.length) '0'
    match digits.drop (power.toNat + 1) with
    | [] => String.ofList filled ++ (if layout.keepPoint then ".0" else "")
    | rest => String.ofList filled ++ "." ++ String.ofList rest

/-- One digit, the others after a point, and the power of ten. -/
def scientific (digits : List Char) (power : Int) : String :=
  match digits with
  | d :: rest@(_ :: _) => String.ofList (d :: '.' :: rest) ++ exponentText power
  | short => String.ofList short ++ exponentText power

def write (layout : NumberLayout) (d : Digits) : String :=
  if layout.least ≤ d.power ∧ d.power ≤ layout.greatest then layout.positional d.chars d.power
  else scientific d.chars d.power

/-- Sign and digits of a number; `digits` chooses the digits of a positive magnitude. -/
def writeNumber (layout : NumberLayout) (digits : Nat → Int → Digits) : Binary64 → String
  | .finite negative m e =>
    (if negative then "-" else "") ++ layout.write (if m = 0 then ⟨0, 0⟩ else digits m e)
  | .infinite negative => if negative then "-inf" else "inf"
  | .nan => "nan"

/-- Positional below `10 ^ 16` and down to `10 ^ -4`, whole numbers with `.0`. -/
def plain : NumberLayout := ⟨-4, 15, true⟩

/-- Positional below a million and down to `10 ^ -4`, whole numbers without a point. -/
def general : NumberLayout := ⟨-4, 5, false⟩

end NumberLayout

namespace Binary64

/-- The shortest text that reads back. -/
def text (x : Binary64) : String := NumberLayout.plain.writeNumber shortest x

/-- The text with at most six significant digits. -/
def sixDigits (x : Binary64) : String := NumberLayout.general.writeNumber (significant 6) x

end Binary64

end ScriptTrace
