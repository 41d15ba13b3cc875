import AnySpans.Text.Quoted

/-!
# Values that do not fit

A value read from a text may not fit what it is wanted for.  A `Mismatch` says what was found and
what was expected; `Mismatch.message` words it.
-/

namespace AnySpans.Decoding

open AnySpans.Text

/-- A value as it is shown in a message. -/
inductive Found where
  | boolean (b : Bool)
  | integer (n : Int)
  /-- An integer of more than 64 bits, with the width it was read in. -/
  | wide (n : Int) (width : String)
  /-- A number with a point, as its format writes it. -/
  | real (text : String)
  | infinite (negative : Bool)
  | notNumber
  | string (s : String)
  | list
  | map
  | null
deriving Repr, Inhabited

private def inTicks (s : String) : String := "\x60" ++ s ++ "\x60"

def Found.text : Found → String
  | boolean b => "boolean " ++ inTicks (toString b)
  | integer n => "integer " ++ inTicks (toString n)
  | wide n width => "integer " ++ inTicks (toString n) ++ " as " ++ width
  | real text => "floating point " ++ inTicks text
  | infinite negative => "floating point " ++ inTicks (if negative then "-inf" else "inf")
  | notNumber => "floating point " ++ inTicks "NaN"
  | string s => "string " ++ quoted s
  | list => "sequence"
  | map => "map"
  | null => "null"

/-- Why a value does not fit. -/
inductive Mismatch where
  /-- A value of another type than expected. -/
  | type (found : Found) (expected : String)
  /-- A value of the right type, but out of range. -/
  | value (found : Found) (expected : String)
  /-- A list with too few or too many members. -/
  | length (found : Nat) (expected : String)
  | missingField (name : String)
  | duplicateField (name : String)
  | unknownField (name : String) (known : List String)
  | unknownVariant (name : String) (known : List String)
  /-- An integer beyond what can be stored. -/
  | tooLarge
  /-- An integer beyond what can be read. -/
  | overflow
deriving Repr, Inhabited

private def oneOf : List String → String
  | [] => "there are no fields"
  | [a] => "expected " ++ inTicks a
  | [a, b] => "expected " ++ inTicks a ++ " or " ++ inTicks b
  | known => "expected one of " ++ ", ".intercalate (known.map inTicks)

/-- The wording of a mismatch. -/
def Mismatch.message : Mismatch → String
  | type found expected => "invalid type: " ++ found.text ++ ", expected " ++ expected
  | value found expected => "invalid value: " ++ found.text ++ ", expected " ++ expected
  | length found expected => "invalid length " ++ toString found ++ ", expected " ++ expected
  | missingField name => "missing field " ++ inTicks name
  | duplicateField name => "duplicate field " ++ inTicks name
  | unknownField name known => "unknown field " ++ inTicks name ++ ", " ++ oneOf known
  | unknownVariant name known => "unknown variant " ++ inTicks name ++ ", " ++ oneOf known
  | tooLarge => "u64 value was too large"
  | overflow => "integer number overflowed"

end AnySpans.Decoding
