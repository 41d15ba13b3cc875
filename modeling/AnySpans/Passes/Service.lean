import AnySpans.Documents.Debouncer
import AnySpans.Passes.World

/-!
# Passes for a host

A host tells what happens to its documents by `Notice`s.  They wait in a queue and are handled one
after another: the documents are brought up to date, and passes over them are called for once
nothing was told about them during the delay of the settings.  New settings call for passes over
all documents at once.

`Service.step?` leaves open in which order notices are handled, the clock moves, passes are called
for and passes make their steps.
-/

namespace AnySpans.Passes

open AnySpans.Documents AnySpans.Lines AnySpans.Settings AnySpans.Syntax AnySpans.Text

/-- What a host tells. -/
inductive Notice where
  | opened (r : Request)
  /-- A document has another text. -/
  | changed (r : Request)
  /-- Other lines of a document are visible. -/
  | scrolled (r : Request)
  | focused (r : Request)
  | closed (k : Key)
  /-- The ranges of compiler errors of a document. -/
  | diagnosed (k : Key) (ranges : List Range)
  | configured (c : Config)
deriving Repr, Inhabited

/-- The requests of a host. -/
structure Desk where
  /-- The requests that wait for quiet. -/
  debouncer : Debouncer
  /-- The last request of each document. -/
  latest : Table Request
deriving Repr, Inhabited

namespace Desk

/-- No request has come. -/
def new (c : Config) : Desk := ⟨.new c.debounce, ∅⟩

variable (d : Desk)

/-- Takes a request that comes at a time. -/
def take (r : Request) (now : Nat) : Desk :=
  ⟨d.debouncer.schedule r now, d.latest.put r.key r⟩

/-- Handles a notice at a time; what happens by it to the documents and passes. -/
def handle (now : Nat) : Notice → Desk × List Event
  | .opened r => (d.take r now, [.opened r.key])
  | .changed r => (d.take r now, [.edited r.key])
  | .scrolled r => (d.take r now, [])
  | .focused r => (d.take r now, [])
  | .closed k => (⟨d.debouncer.cancel k, d.latest.erase k⟩, [.closed k])
  | .diagnosed k ranges => (d, [.errors k ranges])
  | .configured c =>
    ({ d with debouncer := d.latest.keys.foldl .cancel (d.debouncer.setDelay c.debounce) },
      .configured c :: d.latest.values.map .spawned)

/-- Calls for the passes that are due at a time. -/
def release (now : Nat) : Desk × List Event :=
  ({ d with debouncer := d.debouncer.remaining now }, (d.debouncer.due now).map .spawned)

end Desk

structure Service where
  world : World
  desk : Desk
  /-- The notices that were not handled yet, the first first. -/
  queue : List Notice
  now : Nat
deriving Repr, Inhabited

/-- What may happen to a service. -/
inductive Turn where
  /-- A notice comes. -/
  | told (n : Notice)
  /-- The first notice is handled. -/
  | handled
  /-- The passes that are due are called for. -/
  | released
  /-- Time passes. -/
  | elapsed (duration : Nat)
  /-- A pass makes a step. -/
  | advanced (e : Event)
deriving Repr, Inhabited

/-- Whether an event is a step of a pass. -/
def Event.isAdvance : Event → Bool
  | .begun _ | .asked _ | .skipped _ | .answered _ _ _ | .dropped _ _ | .finished _ => true
  | _ => false

namespace Service

/-- A service without documents whose passes read by the given readers. -/
def reading (readers : Readers) (c : Config) : Service := ⟨.reading readers c, .new c, [], 0⟩

/-- A service without documents. -/
def new (c : Config) : Service := reading .standard c

variable (s : Service)

/-- The service after the desk has done something. -/
def apply (r : Desk × List Event) : Service :=
  { s with desk := r.1, world := r.2.foldl World.step s.world }

/-- The service after a turn; none if it is not possible. -/
def step? : Turn → Option Service
  | .told n => some { s with queue := s.queue ++ [n] }
  | .handled =>
    match s.queue with
    | n :: queue => some ({ s with queue }.apply (s.desk.handle s.now n))
    | [] => none
  | .released =>
    match s.desk.debouncer.nextDue with
    | some time => if time ≤ s.now then some (s.apply (s.desk.release s.now)) else none
    | none => none
  | .elapsed duration => some { s with now := s.now + duration }
  | .advanced e =>
    if e.isAdvance then (s.world.step? e).map fun world => { s with world } else none

/-- Nothing is left to do. -/
def isQuiet : Bool :=
  s.queue.isEmpty && s.desk.debouncer.isEmpty && s.world.passes.all Stage.isDone

/-- The service after some turns, one after another. -/
inductive Run (start : Service) : List Turn → Service → Prop
  | start : Run start [] start
  | step {ts : List Turn} {t : Turn} {s s' : Service} :
    Run start ts s → s.step? t = some s' → Run start (ts ++ [t]) s'

end Service

end AnySpans.Passes
