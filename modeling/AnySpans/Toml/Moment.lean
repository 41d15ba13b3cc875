import AnySpans.Toml.Value

/-!
# Reading dates and times

`readMoment` reads a date, a time or both, with an offset from universal time at the end of a full
one.  Months, days and times must exist; the sixtieth second is let through for leap seconds.
-/

namespace AnySpans.Toml

open AnySpans.Number

/-- Exactly `count` digits at the start of a text. -/
def readDigits (count : Nat) (cs : List Char) : Option (Nat × List Char) :=
  let ds := cs.take count
  if ds.length = count ∧ ds.all Char.isDigit then some (valueOf 10 ds, cs.drop count) else none

private def readChar (c : Char) : List Char → Option (List Char)
  | d :: cs => if c = d then some cs else none
  | [] => none

def isLeap (year : Nat) : Bool := year % 4 = 0 && (year % 100 ≠ 0 || year % 400 = 0)

def daysIn (year month : Nat) : Nat :=
  if month = 2 then (if isLeap year then 29 else 28)
  else if month ∈ [4, 6, 9, 11] then 30
  else 31

/-- A date at the start of a text. -/
def readDate (cs : List Char) : Option (Date × List Char) := do
  let (year, cs) ← readDigits 4 cs
  let (month, cs) ← readDigits 2 (← readChar '-' cs)
  let (day, cs) ← readDigits 2 (← readChar '-' cs)
  if 1 ≤ month ∧ month ≤ 12 ∧ 1 ≤ day ∧ day ≤ daysIn year month then
    return (⟨year, month, day⟩, cs)
  else none

/-- The fraction of a second after a point, in billionths; further digits are dropped. -/
private def readFraction (cs : List Char) : Option (Option Nat × List Char) :=
  match cs with
  | '.' :: rest =>
    let ds := rest.takeWhile Char.isDigit
    if ds = [] then none
    else
      let kept := ds.take 9
      some (some (valueOf 10 kept * Nat.pow 10 (9 - kept.length)), rest.drop ds.length)
  | _ => some (none, cs)

private def readSecond (cs : List Char) : Option ((Option Nat × Option Nat) × List Char) :=
  match cs with
  | ':' :: rest => do
    let (second, cs) ← readDigits 2 rest
    let (fraction, cs) ← readFraction cs
    return ((some second, fraction), cs)
  | _ => some ((none, none), cs)

/-- A time of day at the start of a text. -/
def readTime (cs : List Char) : Option (Time × List Char) := do
  let (hour, cs) ← readDigits 2 cs
  let (minute, cs) ← readDigits 2 (← readChar ':' cs)
  let ((second, fraction), cs) ← readSecond cs
  if hour ≤ 23 ∧ minute ≤ 59 ∧ second.getD 0 ≤ 60 then
    return (⟨hour, minute, second, fraction⟩, cs)
  else none

/-- An offset that is the whole of a text, or none when the text is empty. -/
private def readOffset : List Char → Option (Option Offset)
  | [] => some none
  | ['Z'] | ['z'] => some (some .zulu)
  | c :: cs => do
    let sign : Int ← if c = '+' then some 1 else if c = '-' then some (-1) else none
    let (hours, cs) ← readDigits 2 cs
    let (minutes, cs) ← readDigits 2 (← readChar ':' cs)
    if hours ≤ 23 ∧ minutes ≤ 59 ∧ cs = [] then
      return some (.minutes (sign * (hours * 60 + minutes)))
    else none

/-- The moment a whole text describes. -/
def readMoment (cs : List Char) : Option Moment :=
  match readDate cs with
  | some (date, []) => some ⟨some date, none, none⟩
  | some (date, sep :: cs) =>
    if sep = 'T' ∨ sep = 't' ∨ sep = ' ' then do
      let (time, cs) ← readTime cs
      return ⟨some date, some time, ← readOffset cs⟩
    else none
  | none =>
    match readTime cs with
    | some (time, []) => some ⟨none, some time, none⟩
    | _ => none

end AnySpans.Toml
