import AnySpans.Grammar.Rule
import AnySpans.Text.Source

/-!
# Tokens described by patterns

`Pattern.ending` gives the end of the longest text at a position that belongs to a pattern.  Names
may hold every character that is not white space, a control character, a digit at the front, or one
of the punctuation marks of the language; escapes spell further ones.
-/

namespace AnySpans.Lexical

open AnySpans.Text AnySpans.Grammar

/-- Space separators of the Unicode standard. -/
def isSpaceSeparator (c : Char) : Bool :=
  let n := c.toNat
  n == 0x20 || n == 0xA0 || n == 0x1680 || (0x2000 ≤ n && n ≤ 0x200A) || n == 0x202F
    || n == 0x205F || n == 0x3000

/-- White space with the property of that name. -/
def isWhite (c : Char) : Bool :=
  let n := c.toNat
  (9 ≤ n && n ≤ 13) || n == 0x85 || n == 0x2028 || n == 0x2029 || isSpaceSeparator c

/-- What may stand between tokens. -/
def isGap (c : Char) : Bool :=
  let n := c.toNat
  isWhite c || n == 0xFEFF || n == 0x2060 || n == 0x200B

private def isDigit (c : Char) : Bool := '0' ≤ c && c ≤ '9'

private def isHex (c : Char) : Bool :=
  isDigit c || ('a' ≤ c && c ≤ 'f') || ('A' ≤ c && c ≤ 'F')

private def isLetter (c : Char) : Bool := ('a' ≤ c && c ≤ 'z') || ('A' ≤ c && c ≤ 'Z')

private def isMark (c : Char) : Bool :=
  ":;\x60\"'@#.,|^&<=>+-*/\\%?!~()[]\x7b\x7d".toList.contains c

/-- Characters that names may hold. -/
def isNamePart (c : Char) : Bool := c.toNat > 0x1F && !isGap c && !isMark c

/-- Characters that names may begin with. -/
def isNameStart (c : Char) : Bool := isNamePart c && !isDigit c

private def nameEscape (s : Source) (i : Nat) : Option Nat :=
  if s.is i '\\' && s.is (i + 1) 'u' then
    if s.is (i + 2) '\x7b' then
      let j := s.run isHex (i + 3)
      if j > i + 3 && s.is j '\x7d' then some (j + 1) else none
    else if s.test (i + 2) isHex && s.test (i + 3) isHex && s.test (i + 4) isHex
        && s.test (i + 5) isHex then some (i + 6)
    else none
  else none

private def nameRest (s : Source) : Nat → Nat → Nat
  | 0, i => i
  | fuel + 1, i =>
    if s.test i isNamePart then nameRest s fuel (i + 1)
    else match nameEscape s i with
      | some j => nameRest s fuel j
      | none => i

/-- The end of the name at a position. -/
def nameEnd (s : Source) (i : Nat) : Option Nat :=
  let first := if s.test i isNameStart then some (i + 1) else nameEscape s i
  first.map (nameRest s s.size)

private def digitRun (p : Char → Bool) (s : Source) : Nat → Nat → Nat
  | 0, i => i
  | fuel + 1, i =>
    if s.test i p then digitRun p s fuel (i + 1)
    else if s.is i '_' && s.test (i + 1) p then digitRun p s fuel (i + 2)
    else i

private def digitsEnd (p : Char → Bool) (s : Source) (i : Nat) : Option Nat :=
  if s.test i p then some (digitRun p s s.size (i + 1)) else none

private def radixEnd (s : Source) (i : Nat) : Option Nat :=
  if !s.is i '0' then none
  else
    let after := fun (c d : Char) (p : Char → Bool) =>
      if s.is (i + 1) c || s.is (i + 1) d then digitsEnd p s (i + 2) else none
    after 'x' 'X' isHex <|> after 'b' 'B' (fun c => c == '0' || c == '1')
      <|> after 'o' 'O' (fun c => '0' ≤ c && c ≤ '7')

private def exponentEnd (s : Source) (i : Nat) : Option Nat :=
  if s.is i 'e' || s.is i 'E' then
    let j := if s.is (i + 1) '+' || s.is (i + 1) '-' then i + 2 else i + 1
    digitsEnd isDigit s j
  else none

/-- The end of an integer part: a lone zero, or digits whose first or second is not zero. -/
private def integerEnd (s : Source) (i : Nat) : Option Nat :=
  let isNonzero := fun c => '1' ≤ c && c ≤ '9'
  let from' := fun j => if s.test j isNonzero then some (digitRun isDigit s s.size (j + 1)) else none
  if s.is i '0' then from' (i + 1) <|> some (i + 1) else from' i

private def optionalEnd (f : Nat → Option Nat) (i : Nat) : Nat := (f i).getD i

private def longest (xs : List (Option Nat)) : Option Nat :=
  xs.foldl (fun a b => match a, b with
    | none, b => b
    | a, none => a
    | some x, some y => some (max x y)) none

private def numberEnd (s : Source) (i : Nat) : Option Nat :=
  let digits := digitsEnd isDigit s i
  let radix := radixEnd s i
  let big := fun (e : Option Nat) => e.bind fun j => if s.is j 'n' then some (j + 1) else none
  let whole := integerEnd s i
  let pointed := whole.bind fun j =>
    if s.is j '.' then
      some (optionalEnd (exponentEnd s) (optionalEnd (digitsEnd isDigit s) (j + 1)))
    else none
  let fraction :=
    if s.is i '.' then (digitsEnd isDigit s (i + 1)).map (optionalEnd (exponentEnd s)) else none
  let scaled := whole.bind (exponentEnd s)
  longest [radix, big radix, big digits, pointed, fraction, scaled, digits]

private def blockCommentEnd (s : Source) : Nat → Nat → Option Nat
  | 0, _ => none
  | fuel + 1, i =>
    match s.at? i with
    | none => none
    | some '*' => if s.is (i + 1) '/' then some (i + 2) else blockCommentEnd s fuel (i + 1)
    | some _ => blockCommentEnd s fuel (i + 1)

/-- Line breaks that end a comment. -/
def isLineBreak (c : Char) : Bool :=
  c == '\n' || c == '\r' || c.toNat == 0x2028 || c.toNat == 0x2029

private def commentEnd (s : Source) (i : Nat) : Option Nat :=
  if !s.is i '/' then none
  else if s.is (i + 1) '/' then some (s.run (fun c => !isLineBreak c) (i + 2))
  else if s.is (i + 1) '*' then blockCommentEnd s s.size (i + 2)
  else none

private def isOctal (c : Char) : Bool := '0' ≤ c && c ≤ '7'

private def escapeEnd (s : Source) (i : Nat) : Option Nat :=
  if !s.is i '\\' then none
  else
    let plain := if s.test (i + 1) (fun c => c != 'x' && c != 'u' && !isOctal c)
      then some (i + 2) else none
    let octal := if s.test (i + 1) isOctal then
        let j := i + 2
        let j := if s.test j isOctal then
          (if s.test (j + 1) isOctal then j + 2 else j + 1) else j
        some j
      else none
    let hex := if s.is (i + 1) 'x' && s.test (i + 2) isHex && s.test (i + 3) isHex
      then some (i + 4) else none
    let broken := if (s.is (i + 1) '\r' || s.is (i + 1) '?')
        && s.test (i + 2) (fun c => c == '\n' || c.toNat == 0x2028 || c.toNat == 0x2029)
      then some (i + 3) else none
    longest [plain, octal, hex, nameEscape s i, broken]

private def runEnd (p : Char → Bool) (s : Source) (i : Nat) : Option Nat :=
  let j := s.run p i
  if j > i then some j else none

private def attributeRest (quote : Char) (s : Source) : Nat → Nat → Nat
  | 0, i => i
  | fuel + 1, i =>
    match s.at? i with
    | none => i
    | some '&' =>
      if s.test (i + 1) (fun c => c != '#' && !isLetter c)
      then attributeRest quote s fuel (i + 2) else i
    | some c => if c == quote then i else attributeRest quote s fuel (i + 1)

private def attributeEnd (quote : Char) (s : Source) (i : Nat) : Option Nat :=
  let j := attributeRest quote s s.size i
  if j > i then some j else none

private def regexClassEnd (s : Source) : Nat → Nat → Option Nat
  | 0, _ => none
  | fuel + 1, i =>
    match s.at? i with
    | none => none
    | some ']' => some (i + 1)
    | some '\n' => none
    | some '\\' =>
      if s.test (i + 1) (fun c => c != '\n') then regexClassEnd s fuel (i + 2) else none
    | some _ => regexClassEnd s fuel (i + 1)

private def regexRest (s : Source) : Nat → Nat → Nat
  | 0, i => i
  | fuel + 1, i =>
    match s.at? i with
    | none => i
    | some '/' => i
    | some '\n' => i
    | some '\\' => if s.test (i + 1) (fun c => c != '\n') then regexRest s fuel (i + 2) else i
    | some '[' =>
      match regexClassEnd s s.size (i + 1) with
      | some j => regexRest s fuel j
      | none => i
    | some _ => regexRest s fuel (i + 1)

private def regexEnd (s : Source) (i : Nat) : Option Nat :=
  let j := regexRest s s.size i
  if j > i then some j else none

private def dashedEnd (s : Source) (i : Nat) : Option Nat :=
  let start := fun c => isLetter c || c == '_' || c == '$'
  let part := fun c => start c || isDigit c
  if s.test i start then
    let j := s.run part (i + 1)
    if s.is j '-' then some (s.run (fun c => part c || c == '-') (j + 1)) else none
  else none

private def boundedRun (p : Char → Bool) (s : Source) : Nat → Nat → Nat
  | 0, i => i
  | left + 1, i => if s.test i p then boundedRun p s left (i + 1) else i

private def referenceEnd (s : Source) (i : Nat) : Option Nat :=
  if !s.is i '&' then none
  else
    let closed := fun j => if s.is j ';' then j + 1 else j
    let some' := fun (start j : Nat) => if j > start then some (closed j) else none
    if s.is (i + 1) '#' then
      if s.is (i + 2) 'x' || s.is (i + 2) 'X' then some' (i + 3) (boundedRun isHex s 6 (i + 3))
      else some' (i + 2) (boundedRun isDigit s 5 (i + 2))
    else some' (i + 1) (boundedRun isLetter s 30 (i + 1))

/-- The end of the longest text at a position that belongs to the pattern. -/
def ending (s : Source) (i : Nat) : Pattern → Option Nat
  | .identifier => nameEnd s i
  | .privateName => if s.is i '#' then nameEnd s (i + 1) else none
  | .number => numberEnd s i
  | .comment => commentEnd s i
  | .hashBang => if s.is i '#' && s.is (i + 1) '!' then some (s.run (· != '\n') (i + 2)) else none
  | .escape => escapeEnd s i
  | .doubleFragment => runEnd (fun c => c != '"' && c != '\\' && c != '\r' && c != '\n') s i
  | .singleFragment => runEnd (fun c => c != '\'' && c != '\\' && c != '\r' && c != '\n') s i
  | .doubleAttributeFragment => attributeEnd '"' s i
  | .singleAttributeFragment => attributeEnd '\'' s i
  | .regexBody => regexEnd s i
  | .regexEnd => if s.is i '/' then some (i + 1) else none
  | .regexFlags => runEnd (fun c => 'a' ≤ c && c ≤ 'z') s i
  | .dashedName => dashedEnd s i
  | .characterReference => referenceEnd s i

/-- Tokens that must follow the one before without a gap. -/
def isImmediate : Pattern → Bool
  | .escape | .doubleFragment | .singleFragment | .doubleAttributeFragment
  | .singleAttributeFragment | .regexBody | .regexEnd | .regexFlags => true
  | _ => false

/-- How a token fares against others at the same place, before their lengths are compared. -/
def preference : Pattern → Int
  | .doubleFragment | .singleFragment | .doubleAttributeFragment | .singleAttributeFragment
  | .regexEnd => 1
  | .regexBody => -1
  | _ => 0

end AnySpans.Lexical
