import AnySpans.Lines.Interval

/-!
# Sets of lines

An `IntervalSet` is a set of lines as a list of intervals.  It is built by `add`, `addSet` and
`uncovered` only, which keep the list canonical: no member is empty, members ascend, and between two
of them there is a line that is in neither.  While the program is tried out each new list is checked
for this; `add?`, `addSet?` and `uncovered?` are the operations with that check.
-/

namespace AnySpans.Lines

/-- A set of lines. -/
structure IntervalSet where
  intervals : List Interval
deriving DecidableEq, Repr, Inhabited

namespace IntervalSet

/-- The set without lines. -/
def empty : IntervalSet := ⟨[]⟩

instance : EmptyCollection IntervalSet := ⟨empty⟩

instance : Membership Nat IntervalSet := ⟨fun s line => Covers s.intervals line⟩

variable (s t : IntervalSet)

/-- The set with the lines of a range besides its own. -/
def add (r : LineRange) : IntervalSet := ⟨union s.intervals r.toInterval⟩

/-- The set with the lines of another one besides its own. -/
def addSet : IntervalSet := ⟨t.intervals.foldl union s.intervals⟩

/-- The set with the lines of each range besides its own. -/
def extend (rs : List LineRange) : IntervalSet := rs.foldl add s

/-- The set of the lines of some ranges. -/
def ofRanges (rs : List LineRange) : IntervalSet := extend ∅ rs

/-- The set of the lines of one range. -/
def ofRange (r : LineRange) : IntervalSet := ofRanges [r]

def isEmpty : Bool := s.intervals.isEmpty

/-- The number of separate runs of lines. -/
def length : Nat := s.intervals.length

/-- Whether a line is in the set: only the first member that ends after it can hold it. -/
def includes (line : Nat) : Bool :=
  ((s.intervals.dropWhile fun i => i.stop ≤ line).head?).any fun i => i.start ≤ line

/-- Whether one member holds a whole range. -/
def contains (r : LineRange) : Bool := s.intervals.any fun i => i.contains r.toInterval

/-- Whether some line of a range is in the set. -/
def intersects (r : LineRange) : Bool := s.intervals.any fun i => i.intersects r.toInterval

/-- The lines of a range that are not in the set. -/
def uncovered (r : LineRange) : IntervalSet := ⟨difference r.toInterval s.intervals⟩

/-- The runs of lines, as closed ranges in ascending order. -/
def ranges : List LineRange := s.intervals.filterMap Interval.toClosed

/-! ### Checked operations -/

/-- Whether no member is empty and each ends before the next one starts. -/
def isCanonical : Bool :=
  s.intervals.all (fun i => !i.isEmpty) &&
    (s.intervals.zip s.intervals.tail).all fun p => p.1.stop < p.2.start

/-- The set, if it passes the check. -/
def checked? : Option IntervalSet := if s.isCanonical then some s else none

def add? (r : LineRange) : Option IntervalSet := (s.add r).checked?

def addSet? : Option IntervalSet := (s.addSet t).checked?

def extend? (rs : List LineRange) : Option IntervalSet := rs.foldlM add? s

def ofRanges? (rs : List LineRange) : Option IntervalSet := extend? ∅ rs

def uncovered? (r : LineRange) : Option IntervalSet := (s.uncovered r).checked?

end IntervalSet

end AnySpans.Lines
