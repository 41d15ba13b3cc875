import AnySpans.Lines.Interval

/-!
# Positions and ranges in a text

A `Position` is a line with a column counted in UTF-16 units; positions are ordered by line, then by
column.  A `Range` runs from a position up to another one, which need not come later.
-/

namespace AnySpans.Text

open AnySpans.Lines

/-- A line and a column, both counted from zero. -/
structure Position where
  line : Nat
  character : Nat
deriving DecidableEq, Repr, Inhabited

namespace Position

instance : LE Position :=
  ⟨fun p q => p.line < q.line ∨ (p.line = q.line ∧ p.character ≤ q.character)⟩

instance : LT Position :=
  ⟨fun p q => p.line < q.line ∨ (p.line = q.line ∧ p.character < q.character)⟩

instance (p q : Position) : Decidable (p ≤ q) := inferInstanceAs (Decidable (_ ∨ _))

instance (p q : Position) : Decidable (p < q) := inferInstanceAs (Decidable (_ ∨ _))

theorem le_iff {p q : Position} :
    p ≤ q ↔ p.line < q.line ∨ (p.line = q.line ∧ p.character ≤ q.character) := Iff.rfl

theorem lt_iff {p q : Position} :
    p < q ↔ p.line < q.line ∨ (p.line = q.line ∧ p.character < q.character) := Iff.rfl

theorem not_le {p q : Position} : ¬ p ≤ q ↔ q < p := by
  rw [le_iff, lt_iff]; omega

theorem line_le {p q : Position} (h : p ≤ q) : p.line ≤ q.line := by
  rw [le_iff] at h; omega

/-- The order of two positions. -/
def order (p q : Position) : Ordering :=
  (compare p.line q.line).then (compare p.character q.character)

end Position

/-- A stretch of text between two positions. -/
structure Range where
  start : Position
  stop : Position
deriving DecidableEq, Repr, Inhabited

namespace Range

/-- The empty range at a position. -/
def point (p : Position) : Range := ⟨p, p⟩

variable (a b : Range)

/-- Whether a range covers no character. -/
def isEmpty : Bool := decide (a.stop ≤ a.start)

/-- The lines a range touches. -/
def lines : Except Fault LineRange := LineRange.new? a.start.line a.stop.line

/-- Whether two ranges overlap or touch. -/
def intersects : Bool := decide (a.start ≤ b.stop) && decide (b.start ≤ a.stop)

/-- The order of two ranges, by start, then by end. -/
def order : Ordering := (a.start.order b.start).then (a.stop.order b.stop)

end Range

end AnySpans.Text
