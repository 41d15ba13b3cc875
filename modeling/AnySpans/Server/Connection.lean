import AnySpans.Server.Command
import AnySpans.Server.Failure
import AnySpans.Server.Frame

/-!
# The connection to a type server

Commands are numbered and wait in a queue until they are written; requests then wait for the
response with their number.  What the server writes is read message by message, and each response
is handed to the request it is for.  The connection ends when its caller is gone, when a command
cannot be written, or when the server's messages end; then all requests that wait fail.  It breaks
down when a body is announced that is too long to be held; then the messages that were read and not
handed on are lost besides.

`Connection.step?` leaves open in which order these things happen.
-/

namespace AnySpans.Server

/-- A command with its number. -/
structure Outgoing where
  number : Nat
  command : Command
  /-- Whether a response is wanted. -/
  isRequest : Bool
deriving Inhabited, Repr

/-- What a request comes to. -/
abbrev Outcome := Except Failure Response

structure Connection where
  /-- The number of commands so far. -/
  calls : Nat
  /-- The commands that were not written yet. -/
  queue : List Outgoing
  /-- The commands that were written, the latest first. -/
  written : List Outgoing
  /-- The requests whose response has not come. -/
  pending : List Nat
  /-- The requests whose callers wait. -/
  awaited : List Nat
  /-- What requests came to, the latest first. -/
  outcomes : List (Nat × Outcome)
  /-- The messages that were read and not handed on. -/
  inbox : List Message
  /-- The bytes that came and were not read. -/
  input : List UInt8
  /-- No more bytes come. -/
  inputEnded : Bool
  isOpen : Bool
deriving Inhabited

/-- What may happen to a connection. -/
inductive Incident where
  /-- A command is given. -/
  | called (c : Command) (isRequest : Bool)
  /-- The first command of the queue is written. -/
  | wrote
  /-- The first command of the queue cannot be written. -/
  | writeFailed
  | received (bytes : List UInt8)
  /-- The server has closed its end. -/
  | inputClosed
  /-- A message is read. -/
  | read
  /-- The first message is handed on. -/
  | routed
  /-- The messages have ended. -/
  | ended
  /-- A body is announced that cannot be held. -/
  | brokeDown
  /-- A request is not waited for any longer. -/
  | timedOut (number timeout : Nat)
  /-- The caller of a request is gone. -/
  | abandoned (number : Nat)
  /-- The caller of all commands is gone, and all commands are written. -/
  | dropped
deriving Inhabited

namespace Connection

/-- A connection on which nothing has happened. -/
def new : Connection := ⟨0, [], [], [], [], [], [], [], false, true⟩

variable (c : Connection)

/-- What a request came to, if it did. -/
def outcome? (number : Nat) : Option Outcome :=
  (c.outcomes.find? fun o => o.1 == number).map (·.2)

/-- Tells the caller of a request, if it waits, what it came to. -/
def resolve (number : Nat) (o : Outcome) : Connection :=
  if c.awaited.contains number then
    { c with awaited := c.awaited.filter (· != number), outcomes := (number, o) :: c.outcomes }
  else c

/-- Hands a message on. -/
def route : Message → Connection
  | .event _ => c
  | .response r =>
    if c.pending.contains r.request then
      { c with pending := c.pending.filter (· != r.request) }.resolve r.request (.ok r)
    else c

/-- Hands on all messages that were read; then whatever still waits fails. -/
def finish : Connection :=
  let c := c.inbox.foldl route { c with inbox := [] }
  let waiting := c.pending ++ (c.queue.filter Outgoing.isRequest).map Outgoing.number
  waiting.foldl (fun c n => c.resolve n (.error .stopped))
    { c with pending := [], queue := [], isOpen := false }

/-- Takes a command; without a connection a request fails. -/
def call (command : Command) (isRequest : Bool) : Connection :=
  let number := c.calls + 1
  let c := { c with
    calls := number
    awaited := if isRequest then number :: c.awaited else c.awaited }
  if c.isOpen then { c with queue := c.queue ++ [⟨number, command, isRequest⟩] }
  else c.resolve number (.error .stopped)

/-- How the messages have ended, if they have: by an error or by the end of all bytes. -/
def ending? : Option (Option FrameError) :=
  match readMessage c.input with
  | .message _ _ => none
  | .refused e => some (some e)
  | .short e => if c.inputEnded then some e else none

/-- Whether a body is announced that cannot be held. -/
def isOverwhelmed : Bool := c.ending? == some (some .tooLong)

/-- Whether nothing more can be read. -/
def isExhausted : Bool := c.ending?.isSome && !c.isOverwhelmed

/-- The connection after an incident; none if it is not possible. -/
def step? : Incident → Option Connection
  | .called command isRequest => some (c.call command isRequest)
  | .wrote =>
    match c.queue with
    | o :: queue =>
      if c.isOpen then some { c with
        queue
        written := o :: c.written
        pending := if o.isRequest then c.pending ++ [o.number] else c.pending }
      else none
    | [] => none
  | .writeFailed =>
    match c.queue with
    | o :: queue =>
      if c.isOpen then some ({ c with queue }.resolve o.number (.error .brokenPipe)).finish else none
    | [] => none
  | .received bytes => if c.inputEnded then none else some { c with input := c.input ++ bytes }
  | .inputClosed => some { c with inputEnded := true }
  | .read =>
    match readMessage c.input with
    | .message m rest =>
      if c.isOpen then some { c with inbox := c.inbox ++ [m], input := rest } else none
    | _ => none
  | .routed =>
    match c.inbox with
    | m :: inbox => if c.isOpen then some ({ c with inbox }.route m) else none
    | [] => none
  | .ended => if c.isOpen ∧ c.isExhausted then some c.finish else none
  | .brokeDown => if c.isOpen ∧ c.isOverwhelmed then some { c with inbox := [] }.finish else none
  | .timedOut number timeout =>
    if c.awaited.contains number then
      match (c.queue ++ c.written).find? fun o => o.number == number with
      | some o => some (c.resolve number (.error (.noResponse o.command.name timeout)))
      | none => none
    else none
  | .abandoned number => some { c with awaited := c.awaited.filter (· != number) }
  | .dropped => if c.isOpen ∧ c.queue = [] then some c.finish else none

/-- The connection after an incident, or the same if it is not possible. -/
def step (i : Incident) : Connection := (c.step? i).getD c

/-- The commands given while the connection was open, in order. -/
def commands : List Outgoing := c.written.reverse ++ c.queue

/-- The text that was written. -/
def output : List Char := c.written.reverse.flatMap fun o => o.command.line o.number ++ ['\n']

/-- The connections that can come about. -/
inductive Reachable : Connection → Prop
  | new : Reachable new
  | step {c c' : Connection} {i : Incident} : Reachable c → c.step? i = some c' → Reachable c'

/-! ### All that can be done at once -/

/-- Reads all messages that have come; `fuel` bounds their number. -/
def readAll : (fuel : Nat) → Connection → Connection
  | 0, c => c
  | fuel + 1, c =>
    match c.step? .read with
    | some c => readAll fuel c
    | none => c

/-- Reads all messages that have come, ends the connection after the last and hands them on. -/
def receive : Connection :=
  let c := ((c.readAll c.input.length).step .ended).step .brokeDown
  c.inbox.foldl (fun c _ => c.step .routed) c

end Connection

end AnySpans.Server
