/-!
# Binary64 numbers from decimal literals

A float literal denotes the binary64 number nearest to the decimal it spells; of
two equally near ones, the one with the even significand. Literals carry no sign,
so the numbers here are the non-negative ones: `significand · 2 ^ exponent`, in the
one form in which the significand fills its 53 bits or the exponent is the least
possible.
-/

namespace MudEdit.Number

/-- A non-negative binary64 number. -/
inductive Binary64 where
  | finite (significand : Nat) (exponent : Int)
  | infinite
  deriving DecidableEq, Repr, Inhabited

/-- `numerator / denominator` to the nearest natural number, a tie to the even one. -/
def roundDiv (numerator denominator : Nat) : Nat :=
  let q := numerator / denominator
  let twice := 2 * (numerator % denominator)
  if twice < denominator || (twice == denominator && q % 2 == 0) then q else q + 1

namespace Binary64

/-- The least exponent, that of the subnormal numbers. -/
def leastExponent : Int := -1074

/-- The greatest exponent of a finite number. -/
def greatestExponent : Int := 971

/-- The significand, at exponent `e`, nearest to `numerator / denominator`. -/
def significandAt (numerator denominator : Nat) (e : Int) : Nat :=
  if 0 ≤ e then roundDiv numerator (denominator * Nat.pow 2 e.toNat)
  else roundDiv (numerator * Nat.pow 2 (-e).toNat) denominator

/-- The number with this significand, which may have one bit too many, at exponent `e`. -/
def normalize (significand : Nat) (e : Int) : Binary64 :=
  let (m, e) := if Nat.pow 2 53 ≤ significand then (significand / 2, e + 1) else (significand, e)
  if greatestExponent < e then .infinite else .finite m e

/--
The number nearest to `numerator / denominator`. The first guess at the exponent,
from the lengths of the two numbers in bits, is right or one too small.
-/
def ofRatio (numerator denominator : Nat) : Binary64 :=
  if numerator = 0 then .finite 0 leastExponent else
  let guess : Int := (numerator.log2 : Int) - (denominator.log2 : Int) - 53
  let short := max leastExponent guess
  let isShort :=
    numerator * Nat.pow 2 (-short).toNat < denominator * Nat.pow 2 (53 + short.toNat)
  let e := if isShort then short else short + 1
  normalize (significandAt numerator denominator e) e

/-- The number that a literal of whole and fractional digits denotes. -/
def ofDigits (whole fraction : List Char) : Binary64 :=
  ofRatio (Nat.ofDigitChars 10 (whole ++ fraction) 0) (Nat.pow 10 fraction.length)

end Binary64

end MudEdit.Number
