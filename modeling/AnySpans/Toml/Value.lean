import AnySpans.Number.Double

/-!
# Values of settings files

A settings file is a `Table` of keys and values.  A table remembers how it was written, because that
decides what may still be added to it: one with a header of its own is complete after its section,
one that only came about on the way to another may get a header later, one made by dotted keys may
be extended by dotted keys, and one in braces is complete at once.
-/

namespace AnySpans.Toml

open AnySpans.Number

/-- A number with a point or an exponent, in its shortest form, or one of the special values. -/
inductive Real where
  | finite (d : Decimal)
  | infinite (negative : Bool)
  | notNumber
deriving DecidableEq, Repr, Inhabited

/-- A calendar date. -/
structure Date where
  year : Nat
  month : Nat
  day : Nat
deriving DecidableEq, Repr, Inhabited

/-- A time of day; seconds and their fraction may be left out.  The fraction is in billionths. -/
structure Time where
  hour : Nat
  minute : Nat
  second : Option Nat
  fraction : Option Nat
deriving DecidableEq, Repr, Inhabited

/-- The distance of a local time from universal time, in minutes. -/
inductive Offset where
  | zulu
  | minutes (n : Int)
deriving DecidableEq, Repr, Inhabited

/-- A moment, a date or a time. -/
structure Moment where
  date : Option Date
  time : Option Time
  offset : Option Offset
deriving DecidableEq, Repr, Inhabited

/-- How a table was written. -/
inductive Origin where
  /-- By a header of its own. -/
  | header
  /-- On the way to a deeper header. -/
  | implied
  /-- By dotted keys. -/
  | dotted
  /-- In braces. -/
  | braces
deriving DecidableEq, Repr, Inhabited

/-- A value. -/
inductive Value where
  | string (s : String)
  | integer (n : Int)
  | real (r : Real)
  | boolean (b : Bool)
  | moment (m : Moment)
  /-- A list; `ofTables` says that it was written by repeated headers. -/
  | list (ofTables : Bool) (items : List Value)
  | table (origin : Origin) (entries : List (String × Value))
deriving Inhabited

/-- Keys with their values, in the order they were written. -/
abbrev Entries := List (String × Value)

/-- The name of a value's type. -/
def Value.typeName : Value → String
  | string _ => "string"
  | integer _ => "integer"
  | real _ => "float"
  | boolean _ => "boolean"
  | moment _ => "datetime"
  | list _ _ => "array"
  | table _ _ => "table"

/-! ### Moments as text -/

/-- A number with leading zeros up to a width. -/
def padded (width n : Nat) : List Char :=
  let ds := digitsOf n
  List.replicate (width - ds.length) '0' ++ ds

def Date.text (d : Date) : List Char :=
  padded 4 d.year ++ '-' :: padded 2 d.month ++ '-' :: padded 2 d.day

private def fractionText (n : Nat) : List Char :=
  let ds := ((padded 9 n).reverse.dropWhile (· == '0')).reverse
  '.' :: if ds = [] then ['0'] else ds

def Time.text (t : Time) : List Char :=
  padded 2 t.hour ++ ':' :: padded 2 t.minute
    ++ (t.second.map fun s => ':' :: padded 2 s).getD []
    ++ (t.fraction.map fractionText).getD []

def Offset.text : Offset → List Char
  | zulu => ['Z']
  | minutes n =>
    let m := n.natAbs
    (if n < 0 then '-' else '+') :: padded 2 (m / 60) ++ ':' :: padded 2 (m % 60)

/-- A moment in its usual form. -/
def Moment.text (m : Moment) : String :=
  String.ofList <| (m.date.map Date.text).getD []
    ++ (if m.date.isSome && m.time.isSome then ['T'] else [])
    ++ (m.time.map Time.text).getD []
    ++ (m.offset.map Offset.text).getD []

end AnySpans.Toml
