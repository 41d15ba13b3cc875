import AnySpans.Toml.Reader

/-!
# Showing a place in a settings file

An `Extent` is the part of a text that stands between two places; `Extent.ofKey` finds the part that
gives a key of the whole file its value.  `Excerpt` shows the line on which such a part begins, with
marks under the part.
-/

namespace AnySpans.Toml

/-- A part of a text: the number of characters before it, and what it holds. -/
structure Extent where
  start : Nat
  content : List Char
deriving Repr, Inhabited

/-- The part of a text between the ends of two of its rests. -/
def Extent.between (text start stop : List Char) : Extent :=
  ⟨text.length - start.length, start.take (start.length - stop.length)⟩

/-- The first key of a statement that begins at a place. -/
def firstKey (text line : List Char) : Option Extent := do
  let start := skipSpace (line.dropWhile (· == '['))
  let (_, stop) ← readKey start
  return .between text start stop

/-- Where a key of the whole file gets its value: the value itself or the header of a table; the key
where it is only the first on the way to another. -/
def Extent.ofKey (text : List Char) (key : String) : Option Extent := do
  let lines ← readStatements text
  go true (text.dropWhile (· == '\uFEFF')) lines
where
  go (outside : Bool) (rest : List Char) : List Line → Option Extent
    | [] => none
    | l :: ls =>
      let header := match l.statement with
        | .pair _ _ => false
        | _ => true
      if (header || outside) && l.statement.path.head? == some key then
        if l.statement.path.length = 1 then some (.between text l.start l.stop)
        else firstKey text ((skipGap (rest.length + 1) rest).getD rest)
      else go (outside && !header) ((skipLineEnd l.stop).getD []) ls

/-- A line of a text with marks under a part of it; line and column count from one. -/
structure Excerpt where
  line : Nat
  column : Nat
  content : String
  /-- How many marks there are. -/
  width : Nat
deriving DecidableEq, Repr, Inhabited

/-- The line on which a part begins; marks under the part end at the end of the line. -/
def Extent.excerpt (text : List Char) (e : Extent) : Excerpt :=
  let before := text.take e.start
  let column := (before.reverse.takeWhile (· != '\n')).length
  let content := String.ofList <|
    text.drop (e.start - column) |>.takeWhile (· != '\n')
  { line := before.count '\n' + 1
    column := column + 1
    content
    width := max 1 (min (String.ofList e.content).utf8ByteSize (content.utf8ByteSize - column)) }

/-- An excerpt under a heading, with a message below it. -/
def Excerpt.report (e : Excerpt) (message : String) : String :=
  let number := toString e.line
  let margin := "".pushn ' ' (number.length + 1) ++ "|"
  "\n".intercalate
    ["TOML parse error at line " ++ number ++ ", column " ++ toString e.column,
      margin,
      number ++ " | " ++ e.content,
      margin ++ "".pushn ' ' e.column ++ "".pushn '^' e.width,
      message,
      ""]

end AnySpans.Toml
