import AnySpans.CommandLine.Bounds
import AnySpans.Lines.Interval

/-!
# Windows of lines

A document is looked at in the lines that were asked for, as far as it has them, and these may be
divided into windows of equal length, of which the last one may be shorter.
-/

namespace AnySpans.Report

open AnySpans.CommandLine AnySpans.Lines

/-- The lines of a document that were asked for; none if it has none of them. -/
def requestedLines (bounds : Option Bounds) (lastLine : Nat) : Except Fault (Option LineRange) :=
  match bounds with
  | none => .ok (some ⟨0, lastLine, Nat.zero_le _⟩)
  | some b => do
    let first ← pred? b.first
    if first ≤ lastLine then some <$> LineRange.new? first (min (← pred? b.last) lastLine)
    else return none

/-- Windows of `page + 1` lines from `start` to `stop`. -/
def windowsFrom (page start stop : Nat) (h : start ≤ stop) : List LineRange :=
  if h' : start + page < stop then
    ⟨start, start + page, Nat.le_add_right _ _⟩ :: windowsFrom page (start + page + 1) stop h'
  else [⟨start, stop, h⟩]
termination_by stop - start

/-- The windows of a range; a single one unless a page size is given. -/
def windows (range : LineRange) (page : Option Nat) : List LineRange :=
  match page with
  | none | some 0 => [range]
  | some (n + 1) => windowsFrom n range.start range.stop range.ordered

end AnySpans.Report
