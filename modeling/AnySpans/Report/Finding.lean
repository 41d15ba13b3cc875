import AnySpans.Json.Writer
import AnySpans.Text.Lines
import AnySpans.Text.Position
import AnySpans.Text.Units

/-!
# Findings

A `Finding` is an identifier of type `any` as it is reported: by file, line and column, counted from
one, and by name.  Findings are printed one a line or as a list of objects.
-/

namespace AnySpans.Report

open AnySpans.Json AnySpans.Lines AnySpans.Text

/-- A reported identifier; its end is that of its range. -/
structure Finding where
  file : String
  line : Nat
  column : Nat
  endLine : Nat
  endColumn : Nat
  name : String
deriving DecidableEq, Repr, Inhabited

/-- The characters of a line that start at a column from `start` up to, not including, `stop`; the
line begins at `column`. -/
def columnsFrom (column start stop : Nat) : List Char → List Char
  | [] => []
  | c :: cs =>
    if stop ≤ column then []
    else
      let rest := columnsFrom (column + units16 c) start stop cs
      if start ≤ column then c :: rest else rest

/-- The text of a range, as far as it lies on the range's first line. -/
def textOn (text : List Char) (r : Range) : List Char :=
  match (splitLines text)[r.start.line]? with
  | none => []
  | some line =>
    columnsFrom 0 r.start.character (if r.stop.line = r.start.line then r.stop.character else limit)
      line

/-- The finding for a range of a text. -/
def Finding.of (file : String) (text : List Char) (r : Range) : Except Fault Finding := do
  return {
    file
    line := ← succ? r.start.line
    column := ← succ? r.start.character
    endLine := ← succ? r.stop.line
    endColumn := ← succ? r.stop.character
    name := String.ofList (textOn text r) }

/-- The line that reports a finding. -/
def Finding.text (f : Finding) : String :=
  f.file ++ ":" ++ toString f.line ++ ":" ++ toString f.column ++ ": any " ++ f.name ++ "\n"

def Finding.value (f : Finding) : Value :=
  .object [("file", .string f.file), ("line", .integer f.line), ("column", .integer f.column),
    ("end_line", .integer f.endLine), ("end_column", .integer f.endColumn),
    ("name", .string f.name)]

/-- The report of findings one a line. -/
def reportText (fs : List Finding) : String := String.join (fs.map Finding.text)

/-- The report of findings as a list of objects. -/
def reportJson (fs : List Finding) : String :=
  String.ofList (Value.writeIndented (.list (fs.map Finding.value)) ++ ['\n'])

end AnySpans.Report
