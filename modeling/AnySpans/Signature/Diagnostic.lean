import AnySpans.Text.Position

/-!
# Compiler errors

An identifier that cannot be resolved makes everything around it `any`.  `errorRanges` takes the
ranges of the compiler's errors from a host's diagnostics, and `retainActionable` drops the
`any` ranges that overlap or touch one of them.
-/

namespace AnySpans.Signature

open AnySpans.Text

/-- How grave a diagnostic is; only errors matter. -/
inductive Severity where
  | error
  | other
deriving DecidableEq, Repr, Inhabited

/-- A remark of some tool on a range of a document. -/
structure Diagnostic where
  range : Range
  severity : Option Severity
  source : Option String
deriving DecidableEq, Repr, Inhabited

/-- The names under which the compiler reports. -/
def compilerSources : List String := ["ts", "typescript"]

/-- Whether a diagnostic is an error of the compiler. -/
def Diagnostic.isCompilerError (d : Diagnostic) : Bool :=
  d.severity = some .error && d.source.any compilerSources.contains

/-- The ranges of the compiler's errors, in order. -/
def errorRanges (ds : List Diagnostic) : List Range :=
  (ds.filter Diagnostic.isCompilerError).map Diagnostic.range

/-- The ranges that neither overlap nor touch an error. -/
def retainActionable (anys errors : List Range) : List Range :=
  anys.filter fun a => !errors.any a.intersects

end AnySpans.Signature
