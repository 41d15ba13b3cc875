import AnySpans.Toml.Excerpt

/-!
# What is wrong with a settings file

`Flaw.find` looks at a text that is no settings file, statement by statement, and tells what is wrong
with the first one that cannot be read or that contradicts an earlier one.
-/

namespace AnySpans.Toml

/-- Why a text is no settings file. -/
inductive Flaw where
  /-- A key stands alone. -/
  | keyAlone
  | emptyKey
  /-- A value is missing, or a word that is no value. -/
  | notQuoted
  /-- Something follows on the line. -/
  | trailing
  | unclosedTable
  /-- A key or a table is given twice. -/
  | duplicateKey
  | other
deriving DecidableEq, Repr, Inhabited

def Flaw.message : Flaw → String
  | keyAlone => "key with no value, expected \x60=\x60"
  | emptyKey => "unquoted keys cannot be empty, expected letters, numbers, \x60-\x60, \x60_\x60"
  | notQuoted => "string values must be quoted, expected literal string"
  | trailing => "unexpected key or value, expected newline, \x60#\x60"
  | unclosedTable => "unclosed table, expected \x60]\x60"
  | duplicateKey => "duplicate key"
  | other => "invalid TOML"

/-- The run of characters at a place. -/
private def wordAt (text cs : List Char) : Extent :=
  .between text cs (cs.drop (bareRun cs).length)

private def placeOf (text cs : List Char) : Extent := .between text cs cs

/-- What keeps the start of a text from being a statement. -/
private def flawOfStatement (text cs : List Char) : Flaw × Extent :=
  match cs with
  | '[' :: rest =>
    match readKeys (rest.length + 1) (rest.dropWhile (· == '[')) with
    | some (_, after) => (.unclosedTable, placeOf text after)
    | none => (.other, placeOf text cs)
  | _ =>
    match readKeys (cs.length + 1) cs with
    | some (_, '=' :: after) =>
      let value := skipSpace after
      (if value.head?.all fun c => c.isAlpha || c == '\n' then .notQuoted else .other,
        wordAt text value)
    | some (_, after) => (.keyAlone, placeOf text after)
    | none => (if cs.head? = some '=' then .emptyKey else .other, placeOf text cs)

private def findFrom (text : List Char) :
    Nat → List String × Entries → List Char → Option (Flaw × Extent)
  | 0, _, _ => none
  | fuel + 1, s, cs =>
    match skipGap (cs.length + 1) cs with
    | none => some (.other, placeOf text cs)
    | some [] => none
    | some cs =>
      match readStatement cs with
      | none => some (flawOfStatement text cs)
      | some line =>
        match line.statement.run s, skipLineEnd line.stop with
        | _, none => some (.trailing, wordAt text (skipSpace line.stop))
        | none, _ => some (.duplicateKey, (firstKey text cs).getD (placeOf text cs))
        | some s, some rest => findFrom text fuel s rest

/-- The first flaw of a text, with its place. -/
def Flaw.find (text : List Char) : Flaw × Extent :=
  (findFrom text (text.length + 1) ([], []) (text.dropWhile (· == '\uFEFF'))).getD (.other, ⟨0, []⟩)

end AnySpans.Toml
