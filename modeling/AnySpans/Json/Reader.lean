import AnySpans.Json.Value
import AnySpans.Number.Scaled

/-!
# Reading JSON

`read` reads a text into a value, or refuses it.  Nothing may follow the value but white space, and
objects and lists may be nested `depthLimit` levels deep.  `readWithin` leaves the number of levels
open, and what the numbers of a text stand for.
-/

namespace AnySpans.Json

open AnySpans.Number

/-- How deep objects and lists may be nested. -/
def depthLimit : Nat := 127

def isBlankChar (c : Char) : Bool := c == ' ' || c == '\n' || c == '\t' || c == '\r'

def skipBlank (cs : List Char) : List Char := cs.dropWhile isBlankChar

/-! ### Numbers -/

/-- The largest significand. -/
def significandLimit : Nat := 18446744073709551615

/-- Appends digits to a significand while it stays within its limit; gives how many were used. -/
def appendDigits (significand : Nat) : List Char → Nat × Nat
  | [] => (significand, 0)
  | c :: cs =>
    let next := significand * 10 + (c.toNat - 48)
    if next ≤ significandLimit then
      let (m, used) := appendDigits next cs
      (m, used + 1)
    else (significand, 0)

/-- A number as it is written. -/
structure Numeral where
  negative : Bool
  whole : List Char
  /-- The digits after the point, if there is one. -/
  fraction : Option (List Char)
  exponent : Option Int
deriving DecidableEq, Repr

/-- The exponent after its letter. -/
def readExponent (cs : List Char) : Option (Int × List Char) :=
  let (negative, cs) : Bool × List Char := match cs with
    | '+' :: cs => (false, cs)
    | '-' :: cs => (true, cs)
    | cs => (false, cs)
  let ds := cs.takeWhile Char.isDigit
  if ds = [] then none
  else
    let n : Int := valueOf 10 ds
    some (if negative then -n else n, cs.drop ds.length)

/-- The exponent of a number, if one is written. -/
def readScale (cs : List Char) : Option (Option Int × List Char) :=
  match cs with
  | c :: rest =>
    if c = 'e' ∨ c = 'E' then (readExponent rest).map fun (e, cs) => (some e, cs)
    else some (none, cs)
  | [] => some (none, [])

/-- The digits after the point of a number, if one is written. -/
def readFraction : List Char → Option (Option (List Char) × List Char)
  | '.' :: cs =>
    let ds := cs.takeWhile Char.isDigit
    if ds = [] then none else some (some ds, cs.drop ds.length)
  | cs => some (none, cs)

/-- A number without its sign. -/
def readUnsigned (negative : Bool) (cs : List Char) : Option (Numeral × List Char) := do
  let whole := cs.takeWhile Char.isDigit
  if whole = [] ∨ (whole.length > 1 ∧ whole.head? = some '0') then none
  else
    let (fraction, cs) ← readFraction (cs.drop whole.length)
    let (exponent, cs) ← readScale cs
    return (⟨negative, whole, fraction, exponent⟩, cs)

/-- A number. -/
def readNumeral : List Char → Option (Numeral × List Char)
  | '-' :: cs => readUnsigned true cs
  | cs => readUnsigned false cs

/-- A number of double precision with a sign. -/
def realOf (negative : Bool) (significand : Nat) (exponent : Int) : Option Value :=
  (scaled significand exponent).map fun b => .real { shortest .even b with negative }

/-- An integer, or a number of double precision if it does not fit or is a negative zero. -/
def integerOf (negative : Bool) (n : Nat) : Option Value :=
  if !negative then some (.integer n)
  else if 0 < n ∧ n ≤ Nat.pow 2 63 then some (.integer (-n))
  else realOf true n 0

/-- The value a number stands for: an integer if it is written as one and fits, else a number of
double precision; none if it is too large. -/
def Numeral.value? (n : Numeral) : Option Value :=
  let (m, used) := appendDigits 0 n.whole
  let dropped : Int := n.whole.length - used
  match n.fraction with
  | some ds =>
    let (m, used) := appendDigits m ds
    realOf n.negative m (dropped - used + n.exponent.getD 0)
  | none =>
    if n.exponent = none ∧ dropped = 0 then integerOf n.negative m
    else realOf n.negative m (dropped + n.exponent.getD 0)

/-! ### Strings -/

/-- The value of a hexadecimal digit. -/
def hexValue? (c : Char) : Option Nat :=
  if c.isDigit then some (c.toNat - 48)
  else if 'a' ≤ c ∧ c ≤ 'f' then some (c.toNat - 87)
  else if 'A' ≤ c ∧ c ≤ 'F' then some (c.toNat - 55)
  else none

/-- A unit by its number in four hexadecimal digits. -/
def readUnit : List Char → Option (Nat × List Char)
  | a :: b :: c :: d :: cs => do
    let n := (← hexValue? a) * 4096 + (← hexValue? b) * 256 + (← hexValue? c) * 16 + (← hexValue? d)
    return (n, cs)
  | _ => none

/-- A character by the number of one unit, or of two that make a pair. -/
def readCode (cs : List Char) : Option (Char × List Char) := do
  let (n, cs) ← readUnit cs
  if n < 0xD800 ∨ 0xDFFF < n then return (Char.ofNat n, cs)
  else if 0xDC00 ≤ n then none
  else
    match cs with
    | '\\' :: 'u' :: cs =>
      let (low, cs) ← readUnit cs
      if 0xDC00 ≤ low ∧ low ≤ 0xDFFF then
        return (Char.ofNat (0x10000 + (n - 0xD800) * 0x400 + (low - 0xDC00)), cs)
      else none
    | _ => none

/-- The character after a backslash. -/
def readEscape : List Char → Option (Char × List Char)
  | '"' :: cs => some ('"', cs)
  | '\\' :: cs => some ('\\', cs)
  | '/' :: cs => some ('/', cs)
  | 'b' :: cs => some ('\x08', cs)
  | 'f' :: cs => some ('\x0c', cs)
  | 'n' :: cs => some ('\n', cs)
  | 'r' :: cs => some ('\r', cs)
  | 't' :: cs => some ('\t', cs)
  | 'u' :: cs => readCode cs
  | _ => none

/-- The rest of a string, up to its closing quote; `fuel` bounds the number of characters. -/
def readString : (fuel : Nat) → List Char → Option (List Char × List Char)
  | 0, _ => none
  | _ + 1, [] => none
  | fuel + 1, c :: cs =>
    if c = '"' then some ([], cs)
    else if c = '\\' then do
      let (d, cs) ← readEscape cs
      let (s, cs) ← readString fuel cs
      return (d :: s, cs)
    else if c.toNat < 0x20 then none
    else do
      let (s, cs) ← readString fuel cs
      return (c :: s, cs)

/-! ### Values -/

/-- Removes a word from the start of a text. -/
def dropWord (word cs : List Char) : Option (List Char) :=
  if word.isPrefixOf cs then some (cs.drop word.length) else none

section

variable (number : Numeral → Option Value)

mutual

/-- A value at the start of a text; `levels` more levels may be opened. -/
def readValue : (fuel levels : Nat) → List Char → Option (Value × List Char)
  | 0, _, _ => none
  | fuel + 1, levels, cs =>
    match skipBlank cs with
    | 'n' :: cs => (dropWord "ull".toList cs).map fun cs => (.null, cs)
    | 't' :: cs => (dropWord "rue".toList cs).map fun cs => (.boolean true, cs)
    | 'f' :: cs => (dropWord "alse".toList cs).map fun cs => (.boolean false, cs)
    | '"' :: cs => (readString (cs.length + 1) cs).map fun (s, cs) => (.string (String.ofList s), cs)
    | '[' :: cs =>
      match levels with
      | 0 => none
      | levels + 1 =>
        match skipBlank cs with
        | ']' :: cs => some (.list [], cs)
        | cs => (readItems fuel levels cs).map fun (vs, cs) => (.list vs, cs)
    | '\x7b' :: cs =>
      match levels with
      | 0 => none
      | levels + 1 =>
        match skipBlank cs with
        | '\x7d' :: cs => some (.object [], cs)
        | cs => (readMembers fuel levels cs).map fun (ms, cs) => (.object ms, cs)
    | cs => do
      let (n, cs) ← readNumeral cs
      return (← number n, cs)

/-- The items of a list, at least one, up to its end. -/
def readItems : (fuel levels : Nat) → List Char → Option (List Value × List Char)
  | 0, _, _ => none
  | fuel + 1, levels, cs => do
    let (v, cs) ← readValue fuel levels cs
    match skipBlank cs with
    | ',' :: cs =>
      let (vs, cs) ← readItems fuel levels cs
      return (v :: vs, cs)
    | ']' :: cs => return ([v], cs)
    | _ => none

/-- The members of an object, at least one, up to its end. -/
def readMembers : (fuel levels : Nat) → List Char → Option (List (String × Value) × List Char)
  | 0, _, _ => none
  | fuel + 1, levels, cs =>
    match skipBlank cs with
    | '"' :: cs => do
      let (key, cs) ← readString (cs.length + 1) cs
      match skipBlank cs with
      | ':' :: cs =>
        let (v, cs) ← readValue fuel levels cs
        let m := (String.ofList key, v)
        match skipBlank cs with
        | ',' :: cs =>
          let (ms, cs) ← readMembers fuel levels cs
          return (m :: ms, cs)
        | '\x7d' :: cs => return ([m], cs)
        | _ => none
      | _ => none
    | _ => none

end

/-- The value a text describes, nested at most `levels` deep; `number` gives what its numbers stand
for. -/
def readWithin (levels : Nat) (text : List Char) : Option Value := do
  let (v, rest) ← readValue number (text.length + 1) levels text
  if skipBlank rest = [] then return v else none

end

/-- The value a text describes. -/
def read (text : List Char) : Option Value := readWithin Numeral.value? depthLimit text

end AnySpans.Json
