import AnySpans.Passes.Schedule
import AnySpans.Server.Exchange

/-!
# Answers of the type server

`Answers` lets passes put their questions to a type server: each becomes a request about the
document that the pass looks at, and a failure counts as no answer.
-/

namespace AnySpans.Check

open AnySpans.Documents AnySpans.Passes AnySpans.Server AnySpans.Text

/-- Questions put to a server. -/
structure Answers (π : Type) where
  exchange : Exchange π
  /-- The questions that are open with their requests; those without one have no answer. -/
  inquiries : List (Call × Option Nat)

namespace Answers

variable {π : Type} (p : Peer π) (a : Answers π)

/-- Adds a question that its request has a number, or has none. -/
def note (c : Call) (exchange : Exchange π) (number : Option Nat) : Answers π :=
  ⟨exchange, a.inquiries ++ [(c, number)]⟩

def ask (now : Nat) (c : Call) (d : Snapshot) (position : Position) : Answers π :=
  match Location.ofPosition position with
  | .error _ => a.note c a.exchange none
  | .ok place =>
    let (client, r) := a.exchange.client.askInfo d place
    let x := { a.exchange with client }
    match r with
    | .ok (some number) => a.note c (x.await now number) (some number)
    | _ => a.note c x none

def drop (c : Call) : Answers π := { a with inquiries := a.inquiries.filter fun q => q.1 != c }

/-- The answer in what a request came to. -/
def answerOf (o : Server.Outcome) : Answer :=
  match readInfo o with
  | .ok i => i.map QuickInfo.display
  | .error _ => none

def look (_now : Nat) (c : Call) : Answers π × Option Answer :=
  match a.inquiries.find? fun q => q.1 == c with
  | none => (a, none)
  | some (_, none) => (a.drop c, some none)
  | some (_, some number) =>
    match a.exchange.connection.outcome? number with
    | some o => (a.drop c, some (answerOf o))
    | none => (a, none)

def forget (c : Call) : Answers π :=
  match a.inquiries.find? fun q => q.1 == c with
  | some (_, some number) => { a.drop c with exchange := a.exchange.abandon number }
  | _ => a.drop c

def work (now : Nat) : Option (Answers π × List Call) :=
  if a.exchange.isIdle p now then none
  else
    let x := a.exchange.settle p now
    let answered := a.inquiries.filter fun q => q.2.any fun n => (x.connection.outcome? n).isSome
    some ({ a with exchange := x }, answered.map (·.1))

/-- The answers of a server as a source. -/
def source : Source (Answers π) where
  ask := ask
  look := look
  forget := forget
  work := work p
  due := fun a => a.exchange.due p

end Answers

end AnySpans.Check
