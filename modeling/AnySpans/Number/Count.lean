/-!
# Counts in decimal

`countWithin?` reads a count as people write it: digits, and a plus sign in front if they like.
-/

namespace AnySpans.Number

/-- The number that digits write. -/
def ofDigits (ds : List Char) : Nat := ds.foldl (fun n d => n * 10 + (d.toNat - 48)) 0

/-- The number written by digits after an optional plus sign, if it is at most `most`. -/
def countWithin? (most : Nat) (cs : List Char) : Option Nat :=
  let ds := match cs with
    | '+' :: ds => ds
    | ds => ds
  if ds ≠ [] ∧ ds.all Char.isDigit ∧ ofDigits ds ≤ most then some (ofDigits ds) else none

end AnySpans.Number
