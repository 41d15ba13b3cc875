import AnySpans.Number.Decimal

/-!
# Numbers of double precision

A `Binary` is a number `m · 2 ^ q` with at most 53 bits in `m`.  `nearest` rounds a decimal to such a
number, and `shortest` finds the decimal with the fewest digits that is rounded to it.  Everything is
computed exactly on natural numbers.
-/

namespace AnySpans.Number

/-- The number `m · 2 ^ q`. -/
structure Binary where
  m : Nat
  q : Int
deriving DecidableEq, Repr, Inhabited

/-- The quotient rounded to the nearest number, a half to the even one. -/
def roundDiv (n d : Nat) : Nat :=
  let k := n / d
  let r := 2 * (n % d)
  if r < d then k else if d < r then k + 1 else if k % 2 = 0 then k else k + 1

/-- A fraction divided by a power of two and rounded. -/
def scaledDown (n d : Nat) (q : Int) : Nat :=
  roundDiv (n * Nat.pow 2 (-q).toNat) (d * Nat.pow 2 q.toNat)

/-- A number below `2 ^ 54` in normal form. -/
def Binary.normal (b : Binary) : Binary :=
  if b.m = Nat.pow 2 53 then ⟨Nat.pow 2 52, b.q + 1⟩ else b

/-- The nearest number of double precision to a fraction; none if it is too large. -/
def nearestFraction (n d : Nat) : Option Binary :=
  if n = 0 then some ⟨0, 0⟩
  else
    let guess := max ((Nat.log2 n : Int) - Nat.log2 d - 53) (-1074)
    let m := scaledDown n d guess
    let b := if m < Nat.pow 2 53 then ⟨m, guess⟩ else ⟨scaledDown n d (guess + 1), guess + 1⟩
    let b := Binary.normal b
    if b.q > 971 then none else some b

/-- A decimal's magnitude as a fraction. -/
def Decimal.fraction (d : Decimal) : Nat × Nat :=
  (d.digits * Nat.pow 10 d.exponent.toNat, Nat.pow 10 (-d.exponent).toNat)

/-- The nearest number of double precision to a decimal's magnitude. -/
def nearest (d : Decimal) : Option Binary :=
  -- Exponents far outside the range need not be raised to a power.
  let point := d.exponent + (digitsOf d.digits).length
  if d.digits = 0 ∨ point < -400 then some ⟨0, 0⟩
  else if point > 400 then none
  else nearestFraction d.fraction.1 d.fraction.2

/-- Which of two equally near decimals is taken. -/
inductive Tie where
  | even
  | up
deriving DecidableEq, Repr

/-- A binary number's magnitude as a fraction. -/
def Binary.fraction (b : Binary) : Nat × Nat :=
  (b.m * Nat.pow 2 b.q.toNat, Nat.pow 2 (-b.q).toNat)

/-- The place of the point of a fraction written as a decimal: the number of its digits before the
point, or minus the number of zeros after it. -/
def pointOf (n d : Nat) : Int :=
  if n < d then
    let shift := ((List.range 400).find? fun j => d ≤ n * Nat.pow 10 (j + 1)).getD 400
    Int.negOfNat shift
  else (digitsOf (n / d)).length

/-- The decimals with `count` digits next to a binary number that are rounded to it, nearest
first. -/
def hits (tie : Tie) (b : Binary) (count : Nat) : Option Decimal :=
  let (n, d) := b.fraction
  let k : Int := pointOf n d - count
  -- On the grid of step `10 ^ k` the number lies at `n' / d'`.
  let (n', d') := (n * Nat.pow 10 (-k).toNat, d * Nat.pow 10 k.toNat)
  let low := n' / d'
  let r := 2 * (n' % d')
  let up := if r < d' then false else if d' < r then true
    else match tie with
      | .even => low % 2 = 1
      | .up => true
  let order := if up then [low + 1, low] else [low, low + 1]
  (order.map fun x => Decimal.trimmed ⟨false, x, k⟩).find? fun x => nearest x == some b

/-- The decimal with the fewest digits that is rounded to a binary number, the nearest of them. -/
def shortest (tie : Tie) (b : Binary) : Decimal :=
  if b.m = 0 then ⟨false, 0, 0⟩
  else ((List.range 17).findSome? fun i => hits tie b (i + 1)).getD ⟨false, 0, 0⟩

/-- The number of double precision nearest to a decimal, in its shortest form; none if it is too
large. -/
def Decimal.toDouble (tie : Tie) (d : Decimal) : Option Decimal :=
  (nearest d).map fun b => { shortest tie b with negative := d.negative }

end AnySpans.Number
