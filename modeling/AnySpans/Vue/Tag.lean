import AnySpans.Text.Cursor
import AnySpans.Text.Word

/-!
# Tags

The tags of a single-file component are found by their letters alone, in either case.  An opening
tag is its name, not followed by a further word character, with everything up to the next `>`; a
closing tag may have white space before its `>`.
-/

namespace AnySpans.Vue

open AnySpans.Text

/-- Whether a character is a given small letter in either case.  The long s folds to `s` and the
kelvin sign to `k`. -/
def folds (letter c : Char) : Bool :=
  c == letter || c == letter.toUpper || (letter == 's' && c == 'ſ') || (letter == 'k' && c == 'K')

/-- Tests for the letters of a word in either case. -/
def letters (word : String) : List (Char → Bool) := word.toList.map folds

/-- The places around the attributes of an opening tag and after it. -/
structure Opening where
  attributesFrom : Cursor
  attributesTo : Cursor
  after : Cursor

/-- An opening tag at a cursor. -/
def opening (name : String) (k : Cursor) : Option Opening := do
  let start ← k.expect (letters ("<" ++ name))
  if start.rest.head?.any isWord then none
  else
    let stop := start.skipWhile (· != '>')
    let after ← stop.one (· == '>')
    return ⟨start, stop, after⟩

/-- The place after a closing tag at a cursor. -/
def closing (name : String) (k : Cursor) : Option Cursor := do
  let k ← k.expect (letters ("</" ++ name))
  (k.skipWhile isSpace).one (· == '>')

end AnySpans.Vue
