import AnySpans.Text.Span
import AnySpans.Vue.Tag

/-!
# Script blocks

`scriptBlocks` gives the spans of the scripts of a component that are written in TypeScript: those
whose opening tag has a `lang` attribute with the value `ts`.  Tags are paired from left to right: a
script runs from its opening tag to the first closing tag after it.
-/

namespace AnySpans.Vue

open AnySpans.Text

/-- A quoted `ts` as the value of a `lang` attribute, at a cursor. -/
def langAttribute (k : Cursor) : Option Cursor := do
  let isQuote := fun c : Char => c == '"' || c == '\''
  let k ← k.expect (letters "lang")
  let k ← (k.skipWhile isSpace).one (· == '=')
  (k.skipWhile isSpace).expect ([isQuote] ++ letters "ts" ++ [isQuote])

/-- Whether a `lang` attribute with the value `ts` begins in a text; `after` is the character in
front of it. -/
def choosesTypeScript (after : Option Char) : List Char → Bool
  | [] => false
  | c :: cs =>
    (!after.any isWord && (langAttribute (.ofText (c :: cs) 0)).isSome)
      || choosesTypeScript (some c) cs

/-- A script element: its attributes and the span of its text. -/
structure Element where
  attributes : List Char
  body : Span
deriving Repr, Inhabited

/-- A script element at a cursor, with the place after it. -/
def scriptElement (k : Cursor) : Option (Element × Cursor) := do
  let tag ← opening "script" k
  let (stop, after) ← tag.after.find (closing "script")
  return (⟨tag.attributesFrom.textTo tag.attributesTo, ⟨tag.after.byte, stop.byte⟩⟩, after)

/-- The spans of the scripts in TypeScript that are not empty, in document order. -/
def scriptBlocks (text : List Char) : List Span :=
  (((Cursor.ofText text 0).all scriptElement).filter fun e =>
    choosesTypeScript none e.attributes && e.body.start < e.body.stop).map Element.body

end AnySpans.Vue
