import AnySpans.Lines.Fault

/-!
# Intervals of lines

An `Interval` is half open and may be empty; a `LineRange` is closed and holds at least one line.
Membership (`line ∈ i`) is the view all operations are described by: `union` gives the canonical
list for the lines of a list and one more interval, `difference` the canonical list for the lines of
an interval that no member of a list covers.
-/

namespace AnySpans.Lines

/-- The lines from `start` up to, not including, `stop`. -/
structure Interval where
  start : Nat
  stop : Nat
deriving DecidableEq, Repr, Inhabited

/-- The lines from `start` to `stop`, both included. -/
structure LineRange where
  start : Nat
  stop : Nat
  ordered : start ≤ stop
deriving DecidableEq, Repr

instance : Inhabited LineRange := ⟨⟨0, 0, Nat.le_refl 0⟩⟩

namespace Interval

instance : Membership Nat Interval := ⟨fun i line => i.start ≤ line ∧ line < i.stop⟩

variable (i j : Interval)

theorem mem_iff {line : Nat} : line ∈ i ↔ i.start ≤ line ∧ line < i.stop := Iff.rfl

instance (line : Nat) : Decidable (line ∈ i) := inferInstanceAs (Decidable (_ ∧ _))

def isEmpty : Bool := i.stop ≤ i.start

/-- The number of lines. -/
def length : Nat := i.stop - i.start

/-- The closed range of the same lines; none when there are no lines. -/
def toClosed : Option LineRange :=
  if h : i.start < i.stop then some ⟨i.start, i.stop - 1, Nat.le_sub_one_of_lt h⟩ else none

/-- Whether two intervals share a line; touching is not enough. -/
def intersects : Bool := !i.isEmpty && !j.isEmpty && i.start < j.stop && j.start < i.stop

/-- Whether the bounds of the second lie within those of the first. -/
def contains : Bool := i.start ≤ j.start && j.stop ≤ i.stop

theorem isEmpty_iff : i.isEmpty = true ↔ ∀ line, line ∉ i := by
  simp only [isEmpty, decide_eq_true_eq, mem_iff]
  constructor
  · intro h line; omega
  · intro h
    have := h i.start
    omega

end Interval

namespace LineRange

instance : Membership Nat LineRange := ⟨fun r line => r.start ≤ line ∧ line ≤ r.stop⟩

variable (r : LineRange)

theorem mem_iff {line : Nat} : line ∈ r ↔ r.start ≤ line ∧ line ≤ r.stop := Iff.rfl

instance (line : Nat) : Decidable (line ∈ r) := inferInstanceAs (Decidable (_ ∧ _))

/-- The closed range with the given bounds. -/
def new? (start stop : Nat) : Except Fault LineRange :=
  if h : start ≤ stop then .ok ⟨start, stop, h⟩ else .error .reversed

/-- The range of one line. -/
def single (line : Nat) : LineRange := ⟨line, line, Nat.le_refl line⟩

def containsLine (line : Nat) : Bool := r.start ≤ line && line ≤ r.stop

/-- The half-open interval of the same lines, up to the largest one. -/
def toInterval : Interval := ⟨r.start, min (r.stop + 1) limit⟩

theorem mem_toInterval {line : Nat} : line ∈ r.toInterval ↔ line ∈ r ∧ line < limit := by
  simp only [toInterval, Interval.mem_iff, mem_iff]
  omega

end LineRange

/-! ### Lists of intervals -/

/-- Some member holds the line. -/
def Covers (is : List Interval) (line : Nat) : Prop := ∃ i ∈ is, line ∈ i

/-- Merges a list sorted by start into the open interval `current`. -/
def mergeFrom (current : Interval) : List Interval → List Interval
  | [] => [current]
  | i :: is =>
    if i.start ≤ current.stop then mergeFrom ⟨current.start, max current.stop i.stop⟩ is
    else current :: mergeFrom i is

/-- Merges what overlaps or touches in a list sorted by start. -/
def mergeSorted : List Interval → List Interval
  | [] => []
  | i :: is => mergeFrom i is

/-- A list in ascending order of starts. -/
def sortByStart (is : List Interval) : List Interval := is.mergeSort fun i j => i.start ≤ j.start

/-- The canonical list of the lines of a list and one more interval. -/
def union (is : List Interval) (new : Interval) : List Interval :=
  mergeSorted (sortByStart ((is ++ [new]).filter fun i => !i.isEmpty))

/-- The lines from `cursor` up to `stop` that no member of a sorted list covers. -/
def gaps (stop cursor : Nat) : List Interval → List Interval
  | [] => if cursor < stop then [⟨cursor, stop⟩] else []
  | i :: is =>
    let rest := if stop ≤ max cursor i.stop then [] else gaps stop (max cursor i.stop) is
    if cursor < i.start then ⟨cursor, i.start⟩ :: rest else rest

/-- The canonical list of the lines of an interval that no member of a list covers. -/
def difference (i : Interval) (covering : List Interval) : List Interval :=
  gaps i.stop i.start (sortByStart (covering.filter i.intersects))

end AnySpans.Lines
