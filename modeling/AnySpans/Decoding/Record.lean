import AnySpans.Decoding.Mismatch
import AnySpans.Json.Value

/-!
# Reading records

A record is written as an object with a member for each field, or as a list of its fields in order.
`Record.read` reads either form into a structure that starts from its defaults.  Members are looked
at one after another and the first mismatch wins; fields that are missing come last, in the order in
which they are declared.
-/

namespace AnySpans.Decoding

open AnySpans.Json

/-- What a value gives, or why it does not fit. -/
abbrev Decoded := Except Mismatch

/-- A value as messages show it. -/
def Found.ofValue : Value → Found
  | .null => .null
  | .boolean b => .boolean b
  | .integer n => .integer n
  | .real d => .real d.compact
  | .string s => .string s
  | .list _ => .list
  | .object _ => .map

/-- Refuses a value of a wrong type. -/
def misplaced {α : Type} (v : Value) (expected : String) : Decoded α :=
  .error (.type (.ofValue v) expected)

/-! ### Single values -/

def readString : Value → Decoded String
  | .string s => .ok s
  | v => misplaced v "a string"

def readBool : Value → Decoded Bool
  | .boolean b => .ok b
  | v => misplaced v "a boolean"

/-- A number without sign of at most so many bits. -/
def readUnsigned (bits : Nat) (v : Value) : Decoded Nat :=
  let expected := "u" ++ toString bits
  match v with
  | .integer n =>
    if 0 ≤ n ∧ n < Int.pow 2 bits then .ok n.toNat else .error (.value (.integer n) expected)
  | v => misplaced v expected

/-- A value that may be left open. -/
def readOptional {α : Type} (read : Value → Decoded α) : Value → Decoded (Option α)
  | .null => .ok none
  | v => (read v).map some

/-- A list of values of one kind. -/
def readList {α : Type} (read : Value → Decoded α) : Value → Decoded (List α)
  | .list vs => vs.mapM read
  | v => misplaced v "a sequence"

/-! ### Records -/

/-- A field of a record; `put` stores its value. -/
structure Field (α : Type) where
  name : String
  required : Bool
  put : Value → α → Decoded α

/-- A kind of records: its name, its fields in order and the record of their defaults. -/
structure Record (α : Type) where
  name : String
  fields : List (Field α)
  default : α

namespace Record

variable {α : Type} (r : Record α)

/-- The number of a field. -/
def index? (key : String) : Option Nat :=
  r.fields.findIdx? fun f => f.name == key

/-- Stores the values of known members; `seen` are the numbers of the fields stored so far. -/
def readMembers (a : α) (seen : List Nat) : Members → Decoded (α × List Nat)
  | [] => .ok (a, seen)
  | (key, v) :: ms =>
    match r.index? key with
    | none => readMembers a seen ms
    | some i =>
      if seen.contains i then .error (.duplicateField key)
      else
        match r.fields[i]? with
        | none => readMembers a seen ms
        | some f => do readMembers (← f.put v a) (i :: seen) ms

/-- The first required field that was not stored. -/
def missing? (seen : List Nat) : Option String :=
  (r.fields.zipIdx.find? fun (f, i) => f.required && !seen.contains i).map (·.1.name)

/-- Reads the form with a member for each field. -/
def ofMembers (ms : Members) : Decoded α := do
  let (a, seen) ← r.readMembers r.default [] ms
  match r.missing? seen with
  | some name => .error (.missingField name)
  | none => .ok a

/-- Stores values in the order of the fields from number `i` on; gives what is left over. -/
def readItems (a : α) (i : Nat) : List (Field α) → List Value → Decoded (α × List Value)
  | [], vs => .ok (a, vs)
  | f :: fs, v :: vs => do readItems (← f.put v a) (i + 1) fs vs
  | f :: fs, [] =>
    if f.required then
      .error (.length i ("struct " ++ r.name ++ " with " ++ toString r.fields.length ++ " elements"))
    else readItems a (i + 1) fs []

/-- How a list with more items than fields is refused. -/
inductive Surplus where
  /-- By the number of items that would do. -/
  | counted
  | uncounted

private def tooMany (given : Nat) : Surplus → Mismatch
  | .counted => .length given (toString r.fields.length ++ " elements in sequence")
  | .uncounted => .length given "fewer elements in array"

/-- Reads the form of a list. -/
def ofItems (surplus : Surplus) (vs : List Value) : Decoded α := do
  let (a, rest) ← r.readItems r.default 0 r.fields vs
  if rest.isEmpty then .ok a else .error (r.tooMany vs.length surplus)

/-- Reads a record from a value. -/
def read : Value → Decoded α
  | .object ms => r.ofMembers ms
  | .list vs => r.ofItems .uncounted vs
  | v => misplaced v ("struct " ++ r.name)

end Record

/-- A field that must be given. -/
def needed {α β : Type} (name : String) (read : Value → Decoded β) (put : β → α → α) : Field α :=
  ⟨name, true, fun v a => (read v).map fun b => put b a⟩

/-- A field that may be left out. -/
def optional {α β : Type} (name : String) (read : Value → Decoded β) (put : β → α → α) : Field α :=
  ⟨name, false, fun v a => (read v).map fun b => put b a⟩

end AnySpans.Decoding
