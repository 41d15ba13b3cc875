import AnySpans.Number.Decimal

/-!
# JSON values

A `Value` is what a JSON text describes.  The members of an object stand in the order of the text
and may repeat a key; `Value.sorted` gives the form in which values are kept: keys ascend, and of
several members with one key the last one counts.
-/

namespace AnySpans.Json

open AnySpans.Number

/-- A value. -/
inductive Value where
  | null
  | boolean (b : Bool)
  /-- An integer of at most 64 bits. -/
  | integer (n : Int)
  /-- A number of double precision, by its shortest decimal. -/
  | real (d : Decimal)
  | string (s : String)
  | list (items : List Value)
  | object (members : List (String × Value))
deriving Inhabited, Repr

/-- Keys with their values. -/
abbrev Members := List (String × Value)

/-- Puts a member at its place among sorted ones, instead of one with the same key. -/
def insertMember (key : String) (v : Value) : Members → Members
  | [] => [(key, v)]
  | m :: ms =>
    if key < m.1 then (key, v) :: m :: ms
    else if key = m.1 then (key, v) :: ms
    else m :: insertMember key v ms

/-- Members in ascending order of their keys; of equal keys the last one counts. -/
def sortMembers (ms : Members) : Members := ms.foldl (fun sorted m => insertMember m.1 m.2 sorted) []

/-- The value of a key. -/
def lookup (key : String) (ms : Members) : Option Value :=
  (ms.find? fun m => m.1 == key).map (·.2)

mutual

/-- The same value with the members of all its objects sorted. -/
def Value.sorted : Value → Value
  | .list items => .list (sortItems items)
  | .object members => .object (sortMembers (sortEach members))
  | v => v

/-- Sorts the members inside the items of a list. -/
def sortItems : List Value → List Value
  | [] => []
  | v :: vs => v.sorted :: sortItems vs

/-- Sorts the members inside the values of members. -/
def sortEach : List (String × Value) → List (String × Value)
  | [] => []
  | (key, v) :: ms => (key, v.sorted) :: sortEach ms

end

end AnySpans.Json
