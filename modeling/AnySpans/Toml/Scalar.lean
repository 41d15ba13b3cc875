import AnySpans.Toml.Moment

/-!
# Reading bare values

A value that is not quoted or bracketed is a run of characters up to white space, a comma, a bracket
or a comment.  `readBare` tells what such a run is: a boolean, an integer in base 2, 8, 10 or 16, a
number with a point or an exponent, or a moment.  Underscores may divide digits.
-/

namespace AnySpans.Toml

open AnySpans.Number

/-- The digits of a base. -/
def isDigitOf (base : Nat) (c : Char) : Bool :=
  if base = 16 then c.isDigit || ('a' ≤ c && c ≤ 'f') || ('A' ≤ c && c ≤ 'F')
  else c.isDigit && c.toNat - 48 < base

/-- Digits without the underscores between them; `between` says that a digit came just before. -/
def plainDigits (base : Nat) (between : Bool) : List Char → Option (List Char)
  | [] => if between then some [] else none
  | c :: cs =>
    if c = '_' then if between then plainDigits base false cs else none
    else if isDigitOf base c then (plainDigits base true cs).map (c :: ·)
    else none

/-- Splits off a sign; true for a minus. -/
def splitSign : List Char → Bool × List Char
  | '-' :: cs => (true, cs)
  | '+' :: cs => (false, cs)
  | cs => (false, cs)

/-- Decimal digits without a useless zero in front. -/
def leadingDigits (cs : List Char) : Option (List Char) := do
  let ds ← plainDigits 10 false cs
  if ds.length > 1 ∧ ds.head? = some '0' then none else return ds

/-- An integer. -/
def readInteger (cs : List Char) : Option Int :=
  match cs with
  | '0' :: 'x' :: ds => (plainDigits 16 false ds).map fun ds => (valueOf 16 ds : Int)
  | '0' :: 'o' :: ds => (plainDigits 8 false ds).map fun ds => (valueOf 8 ds : Int)
  | '0' :: 'b' :: ds => (plainDigits 2 false ds).map fun ds => (valueOf 2 ds : Int)
  | _ =>
    let (negative, ds) := splitSign cs
    (leadingDigits ds).map fun ds =>
      let n : Int := valueOf 10 ds
      if negative then -n else n

/-- An exponent after its letter. -/
private def readExponent (cs : List Char) : Option Int :=
  let (negative, ds) := splitSign cs
  (plainDigits 10 false ds).map fun ds =>
    let n : Int := valueOf 10 ds
    if negative then -n else n

private def isExponentMark (c : Char) : Bool := c == 'e' || c == 'E'

/-- A number with a point or an exponent. -/
def readReal (cs : List Char) : Option Real :=
  let (negative, body) := splitSign cs
  if body = "inf".toList then some (.infinite negative)
  else if body = "nan".toList then some .notNumber
  else do
    let whole := body.takeWhile fun c => c != '.' && !isExponentMark c
    let rest := body.drop whole.length
    let whole ← leadingDigits whole
    let (fraction, rest) ← match rest with
      | '.' :: cs =>
        let f := cs.takeWhile fun c => !isExponentMark c
        (plainDigits 10 false f).map fun ds => (ds, cs.drop f.length)
      | _ => some ([], rest)
    let exponent ← match rest with
      | [] => if fraction = [] then none else some 0
      | _ :: cs => readExponent cs
    let d : Decimal := ⟨negative, valueOf 10 (whole ++ fraction), exponent - fraction.length⟩
    (d.toDouble .up).map .finite

/-- The value of a run of bare characters. -/
def readBare (cs : List Char) : Option Value :=
  if cs = "true".toList then some (.boolean true)
  else if cs = "false".toList then some (.boolean false)
  else match readMoment cs with
    | some m => some (.moment m)
    | none =>
      match readInteger cs with
      | some n => some (.integer n)
      | none => (readReal cs).map .real

end AnySpans.Toml
