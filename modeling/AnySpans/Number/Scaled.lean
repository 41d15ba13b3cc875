import AnySpans.Number.Double

/-!
# Scaled significands

A number in a data file is read as a significand of at most 64 bits and a power of ten.  `scaled`
rounds each of the two to double precision and then their product or quotient; so the last bit may
differ from that of the nearest number when the digits are many.
-/

namespace AnySpans.Number

/-- The largest power of ten of double precision. -/
def largestPower : Nat := 308

namespace Binary

/-- The nearest number of double precision to a product. -/
def times (a b : Binary) : Option Binary :=
  nearestFraction (a.fraction.1 * b.fraction.1) (a.fraction.2 * b.fraction.2)

/-- The nearest number of double precision to a quotient. -/
def dividedBy (a b : Binary) : Option Binary :=
  nearestFraction (a.fraction.1 * b.fraction.2) (a.fraction.2 * b.fraction.1)

/-- The nearest number of double precision to a power of ten. -/
def tenTo (n : Nat) : Binary := (nearestFraction (Nat.pow 10 n) 1).getD ⟨0, 0⟩

/-- A number times `10 ^ n`; none if it is too large. -/
def raise (b : Binary) (n : Nat) : Option Binary :=
  if n ≤ largestPower then b.times (tenTo n) else if b.m = 0 then some b else none

/-- A number divided several times by a divisor, as long as it is not zero. -/
def lowerBy (divisor : Binary) : (count : Nat) → Binary → Option Binary
  | 0, b => some b
  | count + 1, b =>
    if b.m = 0 then some b else (b.dividedBy divisor).bind fun c => lowerBy divisor count c

/-- A number divided by `10 ^ n`, in steps of the largest power. -/
def lower (b : Binary) (n : Nat) : Option Binary :=
  let steps := (n - 1) / largestPower
  (lowerBy (tenTo largestPower) steps b).bind fun c => c.dividedBy (tenTo (n - largestPower * steps))

end Binary

/-- A significand times a power of ten in double precision; none if it is too large. -/
def scaled (significand : Nat) (exponent : Int) : Option Binary := do
  let b ← nearestFraction significand 1
  if 0 ≤ exponent then b.raise exponent.toNat else b.lower (-exponent).toNat

end AnySpans.Number
