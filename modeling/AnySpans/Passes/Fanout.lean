import AnySpans.Signature.AnyType
import AnySpans.Syntax.Walk

/-!
# Asking about many identifiers

A `Fanout` is a set of questions on their way: each identifier waits, is asked about once, and has
its answer counted as a hit if its type is `any`.  At most `limit` questions are open at a time.
Which step comes next is left open; the order of steps decides nothing but the order of the hits.
-/

namespace AnySpans.Passes

open AnySpans.Signature AnySpans.Syntax AnySpans.Text

/-- An identifier to be asked about, by its place among all of them. -/
structure Query where
  number : Nat
  candidate : Candidate
deriving DecidableEq, Repr, Inhabited

/-- The signature shown for an identifier; none if there is none, or no answer. -/
abbrev Answer := Option String

/-- The state of the questions. -/
structure Fanout where
  limit : Nat
  waiting : List Query
  /-- The questions that are open, in the order in which they were asked. -/
  running : List Query
  /-- The ranges found to be of type `any`, in the order of their answers. -/
  hits : List Range
deriving DecidableEq, Repr, Inhabited

/-- Numbers in order. -/
def numbered (cs : List Candidate) : List Query := cs.zipIdx.map fun (c, n) => ⟨n, c⟩

/-- The range a query finds, given the answer. -/
def Query.hit (q : Query) (a : Answer) : List Range :=
  if a.any isAnyType then [q.candidate.range] else []

namespace Fanout

/-- Nothing has been asked; at least one question may be open. -/
def start (limit : Nat) (cs : List Candidate) : Fanout := ⟨max limit 1, numbered cs, [], []⟩

variable (f : Fanout)

def isDone : Bool := f.waiting.isEmpty && f.running.isEmpty

/-- The open question with a number. -/
def running? (number : Nat) : Option Query := f.running.find? fun q => q.number == number

/-- Asks the next question, if there is one and another may be open. -/
def ask? : Option (Query × Fanout) :=
  match f.waiting with
  | q :: qs =>
    if f.running.length < f.limit then some (q, { f with waiting := qs, running := f.running ++ [q] })
    else none
  | [] => none

/-- Gives the next question up before it is asked. -/
def skip? : Option Fanout :=
  match f.waiting with
  | _ :: qs => some { f with waiting := qs }
  | [] => none

/-- Takes an answer to an open question. -/
def answer? (number : Nat) (a : Answer) : Option Fanout :=
  (f.running? number).map fun q =>
    { f with
      running := f.running.filter fun r => r.number != number
      hits := f.hits ++ q.hit a }

end Fanout

end AnySpans.Passes
