/-!
# Texts with random access

A `Source` is a text as an array of characters, with the byte offset and the line of every
character position.  Positions run from 0 to the number of characters.
-/

namespace AnySpans.Text

/-- A text with the byte offset and the line of each character position. -/
structure Source where
  chars : Array Char
  bytes : Array Nat
  rows : Array Nat
deriving Inhabited

namespace Source

/-- The source of a text. -/
def ofString (text : String) : Source :=
  let cs := text.toList
  let os := cs.foldl (fun (acc : Array Nat × Array Nat × Nat × Nat) c =>
    let (bytes, rows, byte, row) := acc
    let byte := byte + c.utf8Size
    let row := if c = '\n' then row + 1 else row
    (bytes.push byte, rows.push row, byte, row)) (#[0], #[0], 0, 0)
  ⟨cs.toArray, os.1, os.2.1⟩

variable (s : Source)

/-- The number of characters. -/
def size : Nat := s.chars.size

/-- The character at a position. -/
def at? (i : Nat) : Option Char := s.chars[i]?

/-- The byte offset of a position. -/
def byte (i : Nat) : Nat := s.bytes.getD i 0

/-- The line of a position. -/
def row (i : Nat) : Nat := s.rows.getD i 0

/-- The text between two positions. -/
def slice (i j : Nat) : String := String.ofList (s.chars.extract i j).toList

/-- Whether the character at a position satisfies a test. -/
def test (i : Nat) (p : Char → Bool) : Bool := (s.at? i).any p

/-- Whether the given character stands at a position. -/
def is (i : Nat) (c : Char) : Bool := s.at? i == some c

/-- The end of the run of characters from a position that satisfy a test. -/
def run (p : Char → Bool) (i : Nat) : Nat :=
  if h : i < s.chars.size then
    if p s.chars[i] then run p (i + 1) else i
  else i
termination_by s.chars.size - i

/-- The position after a literal, when it stands at a position. -/
def literal (i : Nat) : List Char → Option Nat
  | [] => some i
  | c :: cs => if s.is i c then literal (i + 1) cs else none

end Source

end AnySpans.Text
