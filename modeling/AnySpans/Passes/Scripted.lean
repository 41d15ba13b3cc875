import AnySpans.Passes.Schedule
import AnySpans.Text.Name

/-!
# Answers by rules

A `Script` answers questions by the name at the position that is asked about.  The rule for the name
may first wait for a permit, of which there are only so many, then for a while or for ever, before
it gives its answer.
-/

namespace AnySpans.Passes

open AnySpans.Documents AnySpans.Text

/-- How questions about a name are answered. -/
structure Rule where
  /-- Whether a permit is used up. -/
  gate : Bool
  /-- How long to wait. -/
  delay : Nat
  /-- Whether there is no answer at all. -/
  hang : Bool
  /-- The text of the answer, with a mark for the name. -/
  display : Option String
deriving DecidableEq, Repr, Inhabited

/-- The rule that answers nothing at once. -/
def Rule.silent : Rule := ⟨false, 0, false, none⟩

/-- How far a question has come. -/
inductive Progress where
  /-- It waits for a permit. -/
  | queued
  /-- It has been given a permit. -/
  | permitted
  | resting (until' : Nat)
  | hanging
  | answered (a : Answer)
deriving DecidableEq, Repr, Inhabited

/-- A question with its rule. -/
structure Open where
  call : Call
  rule : Rule
  name : String
  progress : Progress
deriving Repr, Inhabited

structure Script where
  /-- The rules by names; a star stands for all other names. -/
  rules : List (String × Rule)
  permits : Nat
  /-- The questions in the order in which they were put. -/
  opened : List Open
  /-- Questions that can go on. -/
  moved : List Call
deriving Repr, Inhabited

namespace Open

variable (o : Open)

/-- What follows the waiting. -/
def reply : Progress :=
  if o.rule.hang then .hanging else .answered (o.rule.display.map fun d => withName d o.name)

/-- What follows the permit. -/
def rest (now : Nat) : Progress :=
  if o.rule.delay = 0 then o.reply else .resting (now + o.rule.delay)

end Open

namespace Script

variable (s : Script)

def ruleFor (name : String) : Rule :=
  match s.rules.find? fun r => r.1 == name with
  | some r => r.2
  | none => ((s.rules.find? fun r => r.1 == "*").map (·.2)).getD .silent

/-- Gives permits to the questions that wait for one, first come first served. -/
def grant : Nat → List Open → Nat × List Open × List Call
  | 0, os => (0, os, [])
  | n + 1, [] => (n + 1, [], [])
  | n + 1, o :: os =>
    if o.progress = .queued then
      let (n, os, calls) := grant n os
      (n, { o with progress := .permitted } :: os, o.call :: calls)
    else
      let (n, os, calls) := grant (n + 1) os
      (n, o :: os, calls)

/-- Adds permits. -/
def addPermits (n : Nat) : Script :=
  let (permits, opened, calls) := grant (s.permits + n) s.opened
  { s with permits, opened, moved := s.moved ++ calls }

def ask (now : Nat) (c : Call) (d : Snapshot) (p : Position) : Script :=
  let name := nameAt d.text.toList p
  let o : Open := ⟨c, s.ruleFor name, name, .queued⟩
  if o.rule.gate then { s with opened := s.opened ++ [o] }.addPermits 0
  else { s with opened := s.opened ++ [{ o with progress := o.rest now }] }

def forget (c : Call) : Script :=
  let returned := (s.opened.filter fun o => o.call = c ∧ o.progress = .permitted).length
  { s with opened := s.opened.filter fun o => o.call ≠ c }.addPermits returned

/-- A question goes on from its permit. -/
def look (now : Nat) (c : Call) : Script × Option Answer :=
  let opened := s.opened.map fun o =>
    if o.call = c ∧ o.progress = .permitted then { o with progress := o.rest now } else o
  match opened.find? fun o => o.call == c with
  | some ⟨_, _, _, .answered a⟩ => ({ s with opened := opened.filter fun o => o.call ≠ c }, some a)
  | _ => ({ s with opened }, none)

private def isRested (now : Nat) (o : Open) : Bool :=
  match o.progress with
  | .resting time => time ≤ now
  | _ => false

def work (now : Nat) : Option (Script × List Call) :=
  let rested := (s.opened.filter (isRested now)).map Open.call
  if s.moved.isEmpty && rested.isEmpty then none
  else some
    ({ s with
        opened := s.opened.map fun o => if isRested now o then { o with progress := o.reply } else o
        moved := [] },
      s.moved ++ rested)

def due : Option Nat :=
  (s.opened.filterMap fun o =>
    match o.progress with
    | .resting time => some time
    | _ => none).min?

/-- Scripts as sources of answers. -/
def source : Source Script where
  ask := ask
  look := look
  forget := forget
  work := work
  due := due

end Script

end AnySpans.Passes
