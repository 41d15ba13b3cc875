import AnySpans.Text.Position
import AnySpans.Text.Units

/-!
# Byte offsets as positions

A `LineIndex` holds the byte offset at which each line of a text starts; lines are ended by line
feeds, and what follows the last one is a line too.  `LineIndex.position` turns a byte offset into a
position.  For an offset inside a character or past the end the column is counted in bytes.  Lines and
columns are cut to 32 bits: after `limit` they begin with zero again.
-/

namespace AnySpans.Text

open AnySpans.Lines

/-- The byte offsets at which the lines of a text start. -/
structure LineIndex where
  starts : List Nat
deriving Repr, Inhabited

/-- The offsets just after each line feed of a text that begins at offset `byte`. -/
def startsAfter (byte : Nat) : List Char → List Nat
  | [] => []
  | c :: cs =>
    let next := byte + c.utf8Size
    if c = '\n' then next :: startsAfter next cs else startsAfter next cs

namespace LineIndex

/-- The line index of a text. -/
def ofText (cs : List Char) : LineIndex := ⟨0 :: startsAfter 0 cs⟩

variable (x : LineIndex)

/-- The number of lines; after a final line feed there is an empty one. -/
def lineCount : Nat := x.starts.length

/-- The line of a byte offset. -/
def lineOf (byte : Nat) : Nat := (x.starts.takeWhile (· ≤ byte)).length - 1

/-- The byte offset at which a line starts. -/
def startOf (line : Nat) : Nat := x.starts.getD line 0

/-- The position of a byte offset in the text the index was made for. -/
def position (cs : List Char) (byte : Nat) : Position :=
  let line := x.lineOf byte
  let start := x.startOf line
  let column := match sliceBytes? cs start byte with
    | some before => unitLength before
    | none => byte - start
  ⟨line % (limit + 1), column % (limit + 1)⟩

end LineIndex

end AnySpans.Text
