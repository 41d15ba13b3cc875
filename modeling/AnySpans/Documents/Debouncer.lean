import AnySpans.Documents.Table

/-!
# Waiting for quiet

Requests for a document come in bursts.  A `Debouncer` keeps the last one of each document until
nothing has come for it during a delay.
-/

namespace AnySpans.Documents

/-- A request and the time it came. -/
structure Pending where
  request : Request
  since : Nat
deriving Repr, Inhabited

/-- The requests that wait; times are in milliseconds. -/
structure Debouncer where
  delay : Nat
  pending : Table Pending
deriving Repr, Inhabited

namespace Debouncer

def new (delay : Nat) : Debouncer := ⟨delay, ∅⟩

variable (d : Debouncer)

def setDelay (delay : Nat) : Debouncer := { d with delay }

/-- Puts a request in the place of the one that waits. -/
def schedule (r : Request) (now : Nat) : Debouncer :=
  { d with pending := d.pending.put r.key ⟨r, now⟩ }

def cancel (k : Key) : Debouncer := { d with pending := d.pending.erase k }

def isEmpty : Bool := d.pending.isEmpty

/-- When a waiting request is due. -/
def dueAt (p : Pending) : Nat := p.since + d.delay

/-- Whether a request has waited long enough. -/
def isDue (now : Nat) (p : Pending) : Bool := d.delay ≤ now - p.since

/-- When the first request is due. -/
def nextDue : Option Nat := (d.pending.values.map d.dueAt).min?

/-- The requests that are due. -/
def due (now : Nat) : List Request := (d.pending.values.filter (d.isDue now)).map Pending.request

/-- What waits after the requests that are due were taken. -/
def remaining (now : Nat) : Debouncer :=
  { d with pending := ⟨d.pending.rows.filter fun r => !d.isDue now r.2⟩ }

end Debouncer

end AnySpans.Documents
