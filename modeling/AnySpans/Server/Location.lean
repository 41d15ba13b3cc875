import AnySpans.Decoding.Record
import AnySpans.Text.Position

/-!
# Locations of the type server

The type server counts lines and columns from one.
-/

namespace AnySpans.Server

open AnySpans.Decoding AnySpans.Lines AnySpans.Text

/-- A line and a column, both counted from one. -/
structure Location where
  line : Nat
  offset : Nat
deriving DecidableEq, Repr, Inhabited

namespace Location

/-- The location of a position. -/
def ofPosition (p : Position) : Except Fault Location := do
  return ⟨← succ? p.line, ← succ? p.character⟩

/-- The position of a location; zero counts like one. -/
def position (l : Location) : Position := ⟨l.line - 1, l.offset - 1⟩

def record : Record Location :=
  ⟨"Location",
    [needed "line" (readUnsigned 32) fun n l => { l with line := n },
     needed "offset" (readUnsigned 32) fun n l => { l with offset := n }],
    default⟩

end Location

end AnySpans.Server
