/-!
# Lines of a text

`splitLines` gives the lines of a text without their ends: a line feed ends a line, and a carriage
return before it belongs to the end.  What follows the last line feed is a line only if it is not
empty.
-/

namespace AnySpans.Text

/-- A line without the carriage return at its end. -/
def dropReturn (line : List Char) : List Char :=
  if line.getLast? = some '\r' then line.dropLast else line

/-- The lines of a text, the current one being collected in reverse. -/
def linesFrom (current : List Char) : List Char → List (List Char)
  | [] => if current = [] then [] else [current.reverse]
  | c :: cs =>
    if c = '\n' then dropReturn current.reverse :: linesFrom [] cs else linesFrom (c :: current) cs

/-- The lines of a text without their ends. -/
def splitLines (text : List Char) : List (List Char) := linesFrom [] text

/-- The lines joined by line feeds. -/
def joinLines : List (List Char) → List Char
  | [] => []
  | [line] => line
  | line :: rest => line ++ '\n' :: joinLines rest

/-- The text up to the first empty line, if there is one. -/
def firstParagraph : List Char → List Char
  | '\n' :: '\n' :: _ => []
  | [] => []
  | c :: cs => c :: firstParagraph cs

end AnySpans.Text
