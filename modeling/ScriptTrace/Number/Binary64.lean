/-!
# Binary64 numbers as data

A number is a sign, a significand and a power of two, or one of the special values, so that every
operation on it is exact arithmetic on natural numbers.

* `Binary64.ofRatio` : the number nearest to a quotient, a tie going to the even significand;
* `Binary64.ofDecimal` : the number nearest to `digits · 10 ^ exponent`;
* `Binary64.toInt?` : the integer a number without fraction stands for;
* `Binary64.truncate?` : the integer part, toward zero.
-/

namespace ScriptTrace

/-- A double-precision number: `finite negative m e` stands for `± m · 2 ^ e`. -/
inductive Binary64 where
  | finite (negative : Bool) (significand : Nat) (exponent : Int)
  | infinite (negative : Bool)
  | nan
  deriving DecidableEq, Repr, Inhabited

namespace Binary64

/-- Bits of a full significand. -/
def precision : Nat := 53

/-- The least power of two, of the subnormal numbers. -/
def minExponent : Int := -1074

/-- The first power of two out of range. -/
def overflowExponent : Int := 1024

def zero (negative : Bool) : Binary64 := .finite negative 0 minExponent

/-- The quotient `a / b` rounded to a whole number, a tie going to the even neighbour. -/
def roundHalfEven (a b : Nat) : Nat :=
  let q := a / b
  let r := a % b
  if 2 * r < b then q
  else if b < 2 * r then q + 1
  else if q % 2 = 0 then q else q + 1

/-- Numerator and denominator of `(num / den) / 2 ^ e`. -/
def scaled (num den : Nat) (e : Int) : Nat × Nat :=
  if 0 ≤ e then (num, den * Nat.pow 2 e.toNat) else (num * Nat.pow 2 (-e).toNat, den)

/-- The power of two at which `num / den` fills a significand. -/
def exponentFor (num den : Nat) : Int :=
  let e : Int := (num.log2 : Int) - den.log2 - precision
  let (a, b) := scaled num den e
  max minExponent (if a / b < Nat.pow 2 precision then e else e + 1)

/-- The number nearest to `± num / den`. -/
def ofRatio (negative : Bool) (num den : Nat) : Binary64 :=
  if num = 0 then zero negative else
  let e := exponentFor num den
  let (a, b) := scaled num den e
  let m := roundHalfEven a b
  let (m, e) := if m = Nat.pow 2 precision then (Nat.pow 2 (precision - 1), e + 1) else (m, e)
  if m = 0 then zero negative
  else if overflowExponent < e + precision then .infinite negative
  else .finite negative m e

def ofInt (n : Int) : Binary64 := ofRatio (n < 0) n.natAbs 1

/-- Number of decimal digits; one for zero. -/
def digitCount (n : Nat) : Nat := (Nat.toDigits 10 n).length

/-- The number nearest to `± digits · 10 ^ exponent`. Far out of range no power is computed. -/
def ofDecimal (negative : Bool) (digits : Nat) (exponent : Int) : Binary64 :=
  if digits = 0 then zero negative else
  let size := (digitCount digits : Int) + exponent
  if 310 < size then .infinite negative
  else if size < -330 then zero negative
  else if 0 ≤ exponent then ofRatio negative (digits * Nat.pow 10 exponent.toNat) 1
  else ofRatio negative digits (Nat.pow 10 (-exponent).toNat)

/-- The magnitude of a finite number as a quotient. -/
def ratio (significand : Nat) (exponent : Int) : Nat × Nat :=
  if 0 ≤ exponent then (significand * Nat.pow 2 exponent.toNat, 1) else (significand, Nat.pow 2 (-exponent).toNat)

/-- The integer part, toward zero; none for the special values. -/
def truncate? : Binary64 → Option Int
  | .finite negative m e =>
    let (a, b) := ratio m e
    let n : Int := (a / b : Nat)
    some (if negative then -n else n)
  | _ => none

/-- The integer that a number without a fraction stands for. -/
def toInt? (x : Binary64) : Option Int :=
  match x with
  | .finite _ m e =>
    let (a, b) := ratio m e
    if a % b = 0 then x.truncate? else none
  | _ => none

def isZero : Binary64 → Bool
  | .finite _ m _ => m == 0
  | _ => false

/-- The comparison `x ≤ 0`; false of a value that is not a number. -/
def isNonPositive : Binary64 → Bool
  | .finite negative m _ => negative || m == 0
  | .infinite negative => negative
  | .nan => false

end Binary64

end ScriptTrace
