import AnySpans.Text.Position
import AnySpans.Text.Units

/-!
# Names at positions

The name at a position is the longest run of ASCII letters, digits, underscores and dollar signs
that starts there.
-/

namespace AnySpans.Text

def isNameChar (c : Char) : Bool := c.isAlphanum || c == '_' || c == '$'

/-- The text from a line on. -/
def fromLine : (line : Nat) → List Char → List Char
  | 0, cs => cs
  | _ + 1, [] => []
  | line + 1, c :: cs => if c = '\n' then fromLine line cs else fromLine (line + 1) cs

/-- The rest of the first line from a column on. -/
def fromColumn : (column : Nat) → List Char → List Char
  | 0, cs => cs
  | _ + 1, [] => []
  | column + 1, c :: cs =>
    if c = '\n' then [] else if units16 c = 1 then fromColumn column cs else fromColumn (column - 1) cs

/-- The name at a position. -/
def nameAt (text : List Char) (p : Position) : String :=
  String.ofList ((fromColumn p.character (fromLine p.line text)).takeWhile isNameChar)

/-- A pattern with a name in the place of its mark. -/
def withName (pattern name : String) : String := pattern.replace "$NAME" name

end AnySpans.Text
