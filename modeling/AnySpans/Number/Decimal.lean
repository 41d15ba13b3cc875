/-!
# Decimal numbers

A `Decimal` is a number written with finitely many digits.  It is laid out as text either in full
(`Decimal.positional`) or, when very large or very small, with an exponent (`Decimal.compact`).
-/

namespace AnySpans.Number

/-- The number `± digits · 10 ^ exponent`. -/
structure Decimal where
  negative : Bool
  digits : Nat
  exponent : Int
deriving DecidableEq, Repr, Inhabited

/-- The decimal digits of a number. -/
def digitsOf (n : Nat) : List Char := Nat.toDigits 10 n

/-- The value of a list of digits in a base of up to sixteen. -/
def valueOf (base : Nat) (ds : List Char) : Nat :=
  ds.foldl (fun n d =>
    let v := if d.isDigit then d.toNat - 48 else (d.toLower.toNat - 97) + 10
    n * base + v) 0

namespace Decimal

/-- The same number with as few digits as possible. -/
def trimmed (d : Decimal) : Decimal :=
  if d.digits = 0 then ⟨d.negative, 0, 0⟩
  else
    let ds := digitsOf d.digits
    let zeros := (ds.reverse.takeWhile (· == '0')).length
    ⟨d.negative, d.digits / Nat.pow 10 zeros, d.exponent + zeros⟩

variable (d : Decimal)

/-- The sign of a number. -/
def sign : List Char := if d.negative then ['-'] else []

/-- The digits of a number with the place of its point, counted from their start. -/
def pointed : List Char × Int :=
  let ds := digitsOf d.digits
  (ds, d.exponent + ds.length)

/-- The number written in full, with a point. -/
def positional : String :=
  let (ds, point) := d.pointed
  let zeros := fun n : Nat => List.replicate n '0'
  String.ofList <| d.sign ++
    if d.digits = 0 then "0.0".toList
    else if point ≤ 0 then "0.".toList ++ zeros point.natAbs ++ ds
    else if point < ds.length then ds.take point.natAbs ++ '.' :: ds.drop point.natAbs
    else ds ++ zeros (point.natAbs - ds.length) ++ ".0".toList

/-- The number written in full if its point lies at most five zeros before or sixteen digits after
the start of its digits, else with one digit before the point and an exponent. -/
def compact : String :=
  let (ds, point) := d.pointed
  if d.digits = 0 ∨ (-5 < point ∧ point ≤ 16) then d.positional
  else
    let mantissa := match ds with
      | [c] => [c]
      | c :: cs => c :: '.' :: cs
      | [] => []
    String.ofList (d.sign ++ mantissa) ++ "e" ++ toString (point - 1)

end Decimal

end AnySpans.Number
