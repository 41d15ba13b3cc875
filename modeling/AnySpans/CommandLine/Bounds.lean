import AnySpans.Lines.Fault
import AnySpans.Number.Count
import AnySpans.Text.Word

/-!
# Bounds of lines

Lines are selected by two numbers, counted from one, with a colon between them; the second must not
be less than the first.
-/

namespace AnySpans.CommandLine

open AnySpans.Lines AnySpans.Number AnySpans.Text

/-- The first and the last line wanted, counted from one. -/
structure Bounds where
  first : Nat
  last : Nat
deriving DecidableEq, Repr, Inhabited

/-- Why a text gives no bounds. -/
inductive BoundsError where
  | noColon (text : String)
  | first (text : String)
  | last (text : String)
  | order (first last : Nat)
deriving DecidableEq, Repr, Inhabited

/-- The wording of an error. -/
def BoundsError.message : BoundsError → String
  | noColon text => "expected A:B, got '" ++ text ++ "'"
  | first text => "invalid start line '" ++ text ++ "'"
  | last text => "invalid end line '" ++ text ++ "'"
  | order a b => "line range must satisfy 1 <= A <= B, got " ++ toString a ++ ":" ++ toString b

/-- Splits a text at its first colon. -/
def splitColon (cs : List Char) : Option (List Char × List Char) :=
  match cs.dropWhile (· != ':') with
  | _ :: after => some (cs.takeWhile (· != ':'), after)
  | [] => none

/-- The bounds a text gives. -/
def Bounds.parse (text : String) : Except BoundsError Bounds :=
  match splitColon text.toList with
  | none => .error (.noColon text)
  | some (a, b) =>
    match countWithin? limit (trim a), countWithin? limit (trim b) with
    | none, _ => .error (.first (String.ofList a))
    | some _, none => .error (.last (String.ofList b))
    | some first, some last =>
      if first = 0 ∨ last < first then .error (.order first last) else .ok ⟨first, last⟩

end AnySpans.CommandLine
