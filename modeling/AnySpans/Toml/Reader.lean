import AnySpans.Toml.Scalar

/-!
# Reading settings files

`Toml.read` reads a text into a table of values, or refuses it.  Parts of the text are read by
functions that give what they read and what follows; tables are filled by `insertAt`, which checks
that nothing is defined twice and that complete tables stay as they are.
-/

namespace AnySpans.Toml

open AnySpans.Number

/-! ### White space and comments -/

def isSpace (c : Char) : Bool := c == ' ' || c == '\t'

/-- Control characters that may not stand anywhere. -/
def isControl (c : Char) : Bool := (c.toNat < 0x20 && c != '\t') || c.toNat == 0x7F

def skipSpace (cs : List Char) : List Char := cs.dropWhile isSpace

/-- Skips a comment; refuses control characters in it. -/
def skipComment (cs : List Char) : Option (List Char) :=
  match cs with
  | '#' :: rest =>
    let after := rest.dropWhile fun c => !isControl c
    match after with
    | [] | '\n' :: _ | '\r' :: '\n' :: _ => some after
    | _ => none
  | _ => some cs

/-- Skips a line break. -/
def skipBreak : List Char → Option (List Char)
  | '\n' :: cs => some cs
  | '\r' :: '\n' :: cs => some cs
  | _ => none

/-- Skips white space and a comment up to the end of the line, which must come next. -/
def skipLineEnd (cs : List Char) : Option (List Char) := do
  let cs ← skipComment (skipSpace cs)
  if cs = [] then return [] else skipBreak cs

/-- Skips white space, comments and line breaks. -/
def skipGap : Nat → List Char → Option (List Char)
  | 0, cs => some cs
  | fuel + 1, cs => do
    let cs ← skipComment (skipSpace cs)
    match skipBreak cs with
    | some cs => skipGap fuel cs
    | none => return cs

/-! ### Quoted texts -/

/-- A character by its number in `count` hexadecimal digits. -/
def readCode (count : Nat) (cs : List Char) : Option (Char × List Char) :=
  let ds := cs.take count
  if ds.length = count ∧ ds.all (isDigitOf 16) then
    let n := valueOf 16 ds
    if n < 0xD800 ∨ (0xDFFF < n ∧ n < 0x110000) then some (Char.ofNat n, cs.drop count) else none
  else none

/-- The character after a backslash. -/
def readEscape : List Char → Option (Char × List Char)
  | 'b' :: cs => some ('\x08', cs)
  | 't' :: cs => some ('\t', cs)
  | 'n' :: cs => some ('\n', cs)
  | 'f' :: cs => some ('\x0c', cs)
  | 'r' :: cs => some ('\r', cs)
  | 'e' :: cs => some ('\x1b', cs)
  | '"' :: cs => some ('"', cs)
  | '\\' :: cs => some ('\\', cs)
  | 'x' :: cs => readCode 2 cs
  | 'u' :: cs => readCode 4 cs
  | 'U' :: cs => readCode 8 cs
  | _ => none

/-- The rest of a text on one line; escapes count only between double quotes. -/
def readLine (quote : Char) : Nat → List Char → Option (List Char × List Char)
  | 0, _ => none
  | _ + 1, [] => none
  | fuel + 1, c :: cs =>
    if c = quote then some ([], cs)
    else if c = '\\' ∧ quote = '"' then do
      let (d, cs) ← readEscape cs
      let (s, cs) ← readLine quote fuel cs
      return (d :: s, cs)
    else if isControl c then none
    else do
      let (s, cs) ← readLine quote fuel cs
      return (c :: s, cs)

/-- White space and line breaks after a backslash at the end of a line. -/
private def skipFold (cs : List Char) : Option (List Char) := do
  let cs ← skipBreak (skipSpace cs)
  let after := cs.dropWhile fun c => isSpace c || c == '\n' || c == '\r'
  -- A carriage return counts as part of a line break only.
  let gap := cs.take (cs.length - after.length)
  if (gap.zip (gap.drop 1 ++ ['\x00'])).all fun (c, d) => c != '\r' || d == '\n' then return after
  else none

/-- The rest of a text on several lines, up to three quotes; up to two more belong to the text. -/
def readLines (quote : Char) : Nat → List Char → Option (List Char × List Char)
  | 0, _ => none
  | _ + 1, [] => none
  | fuel + 1, c :: cs =>
    if c = quote then
      let run := (c :: cs).takeWhile (· == quote)
      let after := (c :: cs).drop run.length
      if run.length > 5 then none
      else if run.length ≥ 3 then some (List.replicate (run.length - 3) quote, after)
      else do
        let (s, cs) ← readLines quote fuel after
        return (run ++ s, cs)
    else if c = '\\' ∧ quote = '"' then
      match readEscape cs with
      | some (d, cs) => do
        let (s, cs) ← readLines quote fuel cs
        return (d :: s, cs)
      | none => do readLines quote fuel (← skipFold cs)
    else if c = '\n' then do
      let (s, cs) ← readLines quote fuel cs
      return ('\n' :: s, cs)
    else if c = '\r' then
      match cs with
      | '\n' :: cs => do
        let (s, cs) ← readLines quote fuel cs
        return ('\r' :: '\n' :: s, cs)
      | _ => none
    else if isControl c then none
    else do
      let (s, cs) ← readLines quote fuel cs
      return (c :: s, cs)

/-- A quoted text at the start of a text that begins with a quote. -/
def readText (quote : Char) (cs : List Char) : Option (String × List Char) := do
  let fuel := cs.length + 1
  let (s, cs) ← match cs with
    | a :: b :: c :: rest =>
      if a = quote ∧ b = quote ∧ c = quote then
        readLines quote fuel ((skipBreak rest).getD rest)
      else readLine quote fuel (b :: c :: rest)
    | _ :: rest => readLine quote fuel rest
    | [] => none
  return (String.ofList s, cs)

/-! ### Keys -/

def isBareKeyChar (c : Char) : Bool := c.isAlphanum || c == '_' || c == '-'

/-- One key. -/
def readKey (cs : List Char) : Option (String × List Char) :=
  match cs with
  | '"' :: rest => do
    let (s, cs) ← readLine '"' (rest.length + 1) rest
    return (String.ofList s, cs)
  | '\'' :: rest => do
    let (s, cs) ← readLine '\'' (rest.length + 1) rest
    return (String.ofList s, cs)
  | _ =>
    let ds := cs.takeWhile isBareKeyChar
    if ds = [] then none else some (String.ofList ds, cs.drop ds.length)

/-- Keys with dots between them. -/
def readKeys : Nat → List Char → Option (List String × List Char)
  | 0, _ => none
  | fuel + 1, cs => do
    let (k, cs) ← readKey (skipSpace cs)
    match skipSpace cs with
    | '.' :: cs =>
      let (ks, cs) ← readKeys fuel cs
      return (k :: ks, cs)
    | cs => return ([k], cs)

/-! ### Filling tables -/

/-- The value of a key. -/
def lookup (key : String) (es : Entries) : Option Value := (es.find? fun e => e.1 == key).map (·.2)

/-- The entries with a value put under a key, in the old place if the key was there. -/
def put (key : String) (v : Value) : Entries → Entries
  | [] => [(key, v)]
  | e :: es => if e.1 == key then (key, v) :: es else e :: put key v es

/-- Changes the table at a path; tables on the way come about as needed.  `viaKeys` says that the
path is written with dotted keys and not in a header. -/
def descend (viaKeys : Bool) (f : Origin → Entries → Option (Origin × Entries)) :
    List String → Origin → Entries → Option (Origin × Entries)
  | [], origin, es => f origin es
  | k :: ks, origin, es =>
    match lookup k es with
    | none => do
      let (o, inner) ← descend viaKeys f ks (if viaKeys then .dotted else .implied) []
      return (origin, put k (.table o inner) es)
    | some (.table o inner) =>
      if o = .braces ∨ (viaKeys ∧ o = .header) then none
      else do
        let (o, inner) ← descend viaKeys f ks o inner
        return (origin, put k (.table o inner) es)
    | some (.list true items) =>
      match items.getLast? with
      | some (.table o inner) => do
        let (o, inner) ← descend viaKeys f ks o inner
        return (origin, put k (.list true (items.dropLast ++ [.table o inner])) es)
      | _ => none
    | some _ => none

/-- Puts a value at a path of dotted keys inside a table. -/
def insertAt (keys : List String) (v : Value) (origin : Origin) (es : Entries) :
    Option (Origin × Entries) :=
  match keys.getLast? with
  | none => none
  | some last =>
    let path := keys.dropLast
    descend true (fun o inner =>
      -- A table made by a header is not extended by dotted keys.
      if path ≠ [] ∧ o ≠ .dotted then none
      else if (lookup last inner).isSome then none
      else some (o, put last v inner)) path origin es

/-- Opens the table of a header. -/
def openTable (last : String) (o : Origin) (es : Entries) : Option (Origin × Entries) :=
  match lookup last es with
  | none => some (o, put last (.table .header []) es)
  | some (.table .implied inner) => some (o, put last (.table .header inner) es)
  | some _ => none

/-- Opens the next table of a list of tables. -/
def openItem (last : String) (o : Origin) (es : Entries) : Option (Origin × Entries) :=
  match lookup last es with
  | none => some (o, put last (.list true [.table .header []]) es)
  | some (.list true items) => some (o, put last (.list true (items ++ [.table .header []])) es)
  | some _ => none

/-! ### Values -/

private def isBareEnd (c : Char) : Bool :=
  isSpace c || c == '\n' || c == '\r' || c == ',' || c == ']' || c == '\x7d' || c == '#'

/-- A run of bare characters; a date and a time may have one space between them. -/
def bareRun (cs : List Char) : List Char :=
  let run := cs.takeWhile fun c => !isBareEnd c
  match cs.drop run.length with
  | ' ' :: rest =>
    let more := rest.takeWhile fun c => !isBareEnd c
    if (readDate run).any (·.2 = []) ∧ (more.head?.any Char.isDigit) then run ++ ' ' :: more
    else run
  | _ => run

mutual

/-- A value at the start of a text. -/
def readValue : Nat → List Char → Option (Value × List Char)
  | 0, _ => none
  | _ + 1, [] => none
  | fuel + 1, c :: cs =>
    if c = '"' ∨ c = '\'' then do
      let (s, cs) ← readText c (c :: cs)
      return (.string s, cs)
    else if c = '[' then do
      let (vs, cs) ← readItems fuel cs
      return (.list false vs, cs)
    else if c = '\x7b' then do
      let (es, cs) ← readPairs fuel [] cs
      return (.table .braces es, cs)
    else do
      let run := bareRun (c :: cs)
      let v ← readBare run
      return (v, (c :: cs).drop run.length)

/-- The rest of a list in brackets. -/
def readItems : Nat → List Char → Option (List Value × List Char)
  | 0, _ => none
  | fuel + 1, cs => do
    match ← skipGap cs.length cs with
    | ']' :: cs => return ([], cs)
    | cs =>
      let (v, cs) ← readValue fuel cs
      match ← skipGap cs.length cs with
      | ',' :: cs =>
        let (vs, cs) ← readItems fuel cs
        return (v :: vs, cs)
      | ']' :: cs => return ([v], cs)
      | _ => none

/-- The rest of a table in braces, after the entries read so far. -/
def readPairs : Nat → Entries → List Char → Option (Entries × List Char)
  | 0, _, _ => none
  | fuel + 1, es, cs => do
    match ← skipGap cs.length cs with
    | '\x7d' :: cs => return (es, cs)
    | cs =>
      let (keys, cs) ← readKeys (cs.length + 1) cs
      match cs with
      | '=' :: cs =>
        let (v, cs) ← readValue fuel (skipSpace cs)
        let (_, es) ← insertAt keys v .header es
        match ← skipGap cs.length cs with
        | ',' :: cs => readPairs fuel es cs
        | '\x7d' :: cs => return (es, cs)
        | _ => none
      | _ => none

end

/-! ### Statements -/

/-- What a line says. -/
inductive Statement where
  /-- Opens the table at a path. -/
  | table (path : List String)
  /-- Opens the next item of the list of tables at a path. -/
  | item (path : List String)
  /-- Gives a value to dotted keys. -/
  | pair (path : List String) (v : Value)
deriving Inhabited

/-- The keys a statement names. -/
def Statement.path : Statement → List String
  | table path | item path | pair path _ => path

/-- A statement with what follows where its value or its header begins, and where it ends. -/
structure Line where
  statement : Statement
  start : List Char
  stop : List Char
deriving Inhabited

/-- Skips the bracket at the end of a header. -/
def closeTable : List Char → Option (List Char)
  | ']' :: cs => some cs
  | _ => none

/-- The statement at the start of a text. -/
def readStatement (cs : List Char) : Option Line := do
  match cs with
  | '[' :: '[' :: rest =>
    let (keys, rest) ← readKeys (rest.length + 1) rest
    return ⟨.item keys, cs, ← closeTable (← closeTable rest)⟩
  | '[' :: rest =>
    let (keys, rest) ← readKeys (rest.length + 1) rest
    return ⟨.table keys, cs, ← closeTable rest⟩
  | _ =>
    let (keys, rest) ← readKeys (cs.length + 1) cs
    match rest with
    | '=' :: rest =>
      let start := skipSpace rest
      let (v, stop) ← readValue (rest.length + 1) start
      return ⟨.pair keys v, start, stop⟩
    | _ => none

/-- The statements up to the end of a text. -/
def readRest : Nat → List Char → Option (List Line)
  | 0, _ => none
  | fuel + 1, cs => do
    match ← skipGap (cs.length + 1) cs with
    | [] => return []
    | cs =>
      let line ← readStatement cs
      return line :: (← readRest fuel (← skipLineEnd line.stop))

/-- The statements of a text, each on a line of its own. -/
def readStatements (text : List Char) : Option (List Line) :=
  let text := match text with
    | '\uFEFF' :: cs => cs
    | cs => cs
  readRest (text.length + 1) text

/-! ### Files -/

/-- The effect of a statement on the path of the section and on the whole table. -/
def Statement.run (s : List String × Entries) : Statement → Option (List String × Entries)
  | table path => opened path openTable
  | item path => opened path openItem
  | pair path v => do
    let (_, root) ← descend false (insertAt path v) s.1 .header s.2
    return (s.1, root)
where
  opened (path : List String) (f : String → Origin → Entries → Option (Origin × Entries)) := do
    let (_, root) ← descend false (f (← path.getLast?)) path.dropLast .header s.2
    return (path, root)

/-- The table a text describes, if it is well formed. -/
def read (text : List Char) : Option Entries := do
  let lines ← readStatements text
  let (_, root) ← lines.foldlM (fun s l => l.statement.run s) ([], [])
  return root

end AnySpans.Toml
