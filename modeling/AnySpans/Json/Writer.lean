import AnySpans.Json.Value

/-!
# Writing JSON

`Value.write` writes a value without any space, `Value.writeIndented` with one item or member a
line.  Strings escape quotes, backslashes and control characters only, so a value never holds a line
break when written without space.
-/

namespace AnySpans.Json

open AnySpans.Number

/-- A hexadecimal digit. -/
def hexDigit (n : Nat) : Char := Char.ofNat (if n < 10 then 48 + n else 87 + n)

/-- A character inside a string. -/
def writeChar (c : Char) : List Char :=
  match c with
  | '"' => ['\\', '"']
  | '\\' => ['\\', '\\']
  | '\x08' => ['\\', 'b']
  | '\x0c' => ['\\', 'f']
  | '\n' => ['\\', 'n']
  | '\r' => ['\\', 'r']
  | '\t' => ['\\', 't']
  | c =>
    if c.toNat < 0x20 then ['\\', 'u', '0', '0', hexDigit (c.toNat / 16), hexDigit (c.toNat % 16)]
    else [c]

/-- A string in its quotes. -/
def writeString (s : String) : List Char := '"' :: s.toList.flatMap writeChar ++ ['"']

mutual

/-- A value without any space. -/
def Value.write : Value → List Char
  | .null => "null".toList
  | .boolean b => (if b then "true" else "false").toList
  | .integer n => (toString n).toList
  | .real d => d.compact.toList
  | .string s => writeString s
  | .list items => '[' :: writeItems items ++ [']']
  | .object members => '\x7b' :: writeMembers members ++ ['\x7d']

/-- Items with commas between them. -/
def writeItems : List Value → List Char
  | [] => []
  | [v] => v.write
  | v :: vs => v.write ++ ',' :: writeItems vs

/-- Members with commas between them. -/
def writeMembers : List (String × Value) → List Char
  | [] => []
  | [(key, v)] => writeString key ++ ':' :: v.write
  | (key, v) :: ms => writeString key ++ ':' :: v.write ++ ',' :: writeMembers ms

end

/-- A line break and the indentation of a level. -/
def lineStart (level : Nat) : List Char := '\n' :: List.replicate (2 * level) ' '

mutual

/-- A value with one item or member a line, at a level of indentation. -/
def Value.writeAt (level : Nat) : Value → List Char
  | .list (v :: vs) =>
    '[' :: (lineStart (level + 1) ++ v.writeAt (level + 1) ++ itemsAt (level + 1) vs
      ++ lineStart level ++ [']'])
  | .object ((key, v) :: ms) =>
    '\x7b' :: (lineStart (level + 1) ++ writeString key ++ ": ".toList ++ v.writeAt (level + 1)
      ++ membersAt (level + 1) ms ++ lineStart level ++ ['\x7d'])
  | v => v.write

/-- Further items of a list. -/
def itemsAt (level : Nat) : List Value → List Char
  | [] => []
  | v :: vs => ',' :: lineStart level ++ v.writeAt level ++ itemsAt level vs

/-- Further members of an object. -/
def membersAt (level : Nat) : List (String × Value) → List Char
  | [] => []
  | (key, v) :: ms =>
    ',' :: lineStart level ++ writeString key ++ ": ".toList ++ v.writeAt level ++ membersAt level ms

end

/-- A value with one item or member a line. -/
def Value.writeIndented (v : Value) : List Char := v.writeAt 0

end AnySpans.Json
