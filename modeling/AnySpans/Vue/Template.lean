import AnySpans.Text.Span
import AnySpans.Vue.Tag

/-!
# Template expressions

`templateExpressions` gives the expressions of a component's template: what stands between double
braces, and the quoted values of directives.  The template runs from the first opening tag to the
last closing tag.  Of two expressions that overlap, the one that begins first is kept.
-/

namespace AnySpans.Vue

open AnySpans.Text

/-- An expression of a template. -/
structure Expression where
  /-- The bytes it owns, delimiters included. -/
  region : Span
  /-- The expression itself. -/
  body : Span
  /-- The offset of the `of` of a loop. -/
  loopWord : Option Nat
  /-- The last byte of the region can hold the end of a statement. -/
  terminated : Bool
deriving DecidableEq, Repr, Inhabited

/-- The text of the template with the place where it begins. -/
def template? (text : List Char) : Option Cursor := do
  let (_, start, stop) ← (Cursor.ofText text 0).find fun k => do
    let tag ← opening "template" k
    let (stop, _) ← tag.after.findLast (closing "template")
    return (tag.after, stop)
  return ⟨start.byte, start.textTo stop⟩

/-! ### Interpolations -/

/-- An interpolation at a cursor with its text, and the place after it. -/
def interpolation (k : Cursor) : Option ((Expression × List Char) × Cursor) := do
  let start ← k.expect [(· == '\x7b'), (· == '\x7b')]
  let (stop, after) ← start.find (·.expect [(· == '\x7d'), (· == '\x7d')])
  let e : Expression := ⟨⟨k.byte, after.byte⟩, ⟨start.byte, stop.byte⟩, none, true⟩
  return ((e, start.textTo stop), after)

/-! ### Directives -/

/-- The characters a directive's name may have after its first ones. -/
def isNameChar (c : Char) : Bool :=
  isWord c || c == '.' || c == ':' || c == '[' || c == ']' || c == '-'

/-- The place after a directive's name: `v-` or one of `:`, `@`, `#`, then more. -/
def directiveName (k : Cursor) : Option Cursor := do
  let k ← k.expect [(· == 'v'), (· == '-')] <|> k.one fun c => c == ':' || c == '@' || c == '#'
  k.run isNameChar

/-- A text between two characters. -/
def enclosed (first last : Char) (k : Cursor) : Option Cursor := do
  let k ← k.one (· == first)
  (k.skipWhile (· != last)).one (· == last)

/-- The ways to write the variables of a loop. -/
def loopTargets : List (Cursor → Option Cursor) :=
  [enclosed '(' ')', (·.run fun c => !isSpace c && c != '(' && c != ')'),
    enclosed '\x7b' '\x7d', enclosed '[' ']']

/-- The place of the `of` between the variables of a loop and what it runs over. -/
def loopWord (k : Cursor) : Option Nat :=
  loopTargets.findSome? fun target => do
    let k ← target (k.skipWhile isSpace)
    let k ← k.run isSpace
    let after ← k.expect [(· == 'o'), (· == 'f')]
    let _ ← after.one isSpace
    return k.byte

/-- A directive at a cursor with the text of its value, and the place after it.  A loop may be
written with `of`; whether the region has room for a terminator depends on what follows. -/
def directive (k : Cursor) : Option ((Expression × List Char) × Cursor) := do
  let name ← k.one isSpace
  let nameEnd ← directiveName name
  let sign := nameEnd.skipWhile isSpace
  let k ← sign.one (· == '=')
  let k := k.skipWhile isSpace
  let quote ← k.rest.head?.filter fun c => c == '"' || c == '\''
  let start ← k.one (· == quote)
  let stop := start.skipWhile (· != quote)
  let after ← stop.one (· == quote)
  let body := start.textTo stop
  let word := if name.textTo nameEnd = "v-for".toList then loopWord ⟨start.byte, body⟩ else none
  let terminated := after.rest.head?.any fun c => c == ' ' || c == '\t' || c == '>' || c == '/'
  let last := if terminated then after.byte + 1 else after.byte
  return ((⟨⟨sign.byte, last⟩, ⟨start.byte, stop.byte⟩, word, terminated⟩, body), after)

/-! ### All expressions -/

/-- Of expressions in order, those that begin after the ones kept before them; `stop` is where the
last kept one ends. -/
def keepDisjoint (stop : Nat) : List Expression → List Expression
  | [] => []
  | e :: es =>
    if e.region.start < stop then keepDisjoint stop es else e :: keepDisjoint e.region.stop es

/-- All interpolations, then all directives, those without text left out. -/
def matchedExpressions (source : Cursor) : List Expression :=
  ((source.all interpolation ++ source.all directive).filter fun e => !hasNoText e.2).map Prod.fst

/-- The expressions of a document's template, in document order. -/
def templateExpressions (text : List Char) : List Expression :=
  match template? text with
  | none => []
  | some source =>
    keepDisjoint 0 ((matchedExpressions source).mergeSort fun a b => a.region.start ≤ b.region.start)

end AnySpans.Vue
