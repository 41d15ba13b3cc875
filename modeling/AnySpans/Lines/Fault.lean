/-!
# Faults of coordinate arithmetic

Lines and columns are numbers below `2 ^ 32`.  A `Fault` says which rule of that arithmetic a
request broke; `Fault.message` words it.
-/

namespace AnySpans.Lines

/-- The largest line or column. -/
def limit : Nat := 4294967295

/-- A broken rule of coordinate arithmetic. -/
inductive Fault where
  /-- A closed range that starts after its end. -/
  | reversed
  /-- A sum beyond `limit`. -/
  | sum
  /-- A difference below zero. -/
  | difference
deriving DecidableEq, Repr, Inhabited

/-- The wording of a fault. -/
def Fault.message : Fault → String
  | .reversed => "closed line range must satisfy start <= end"
  | .sum => "attempt to add with overflow"
  | .difference => "attempt to subtract with overflow"

/-- The next coordinate, if there is one. -/
def succ? (n : Nat) : Except Fault Nat := if n < limit then .ok (n + 1) else .error .sum

/-- The coordinate before, if there is one. -/
def pred? (n : Nat) : Except Fault Nat := if 0 < n then .ok (n - 1) else .error .difference

theorem succ?_of_lt {n : Nat} (h : n < limit) : succ? n = .ok (n + 1) := if_pos h

theorem pred?_of_pos {n : Nat} (h : 0 < n) : pred? n = .ok (n - 1) := if_pos h

end AnySpans.Lines
