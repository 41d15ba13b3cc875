import AnySpans.Server.Client

/-!
# A client and a server

An `Exchange` is a client whose connection leads to a server.  The server may be any `Peer`: it hears
one line after another and may do something at each, or by itself when a time has come.  Requests
whose response does not come in time fail.
-/

namespace AnySpans.Server

/-- What a server does. -/
inductive Deed where
  | send (bytes : List UInt8)
  /-- It reads and writes no more. -/
  | close
  /-- It reads no more. -/
  | closeInput
deriving Repr, Inhabited

/-- A server; its states are of type `π`. -/
structure Peer (π : Type) where
  /-- It hears a line at a time. -/
  hear : π → (now : Nat) → (line : List Char) → π × List Deed
  /-- What it does by itself by a time. -/
  act : π → (now : Nat) → π × List Deed
  /-- When it will do something by itself. -/
  due : π → Option Nat

structure Exchange (π : Type) where
  client : Client
  peer : π
  /-- Whether the server reads. -/
  isHeard : Bool
  /-- The lines that the server has not read. -/
  unread : List (List Char)
  /-- The lines that the server has read, the latest first. -/
  heard : List (List Char)
  /-- How long a response is waited for. -/
  timeout : Nat
  /-- When requests fail. -/
  deadlines : List (Nat × Nat)

namespace Exchange

variable {π : Type} (p : Peer π) (x : Exchange π)

/-- Nothing has been said. -/
def start (peer : π) (timeout : Nat) : Exchange π := ⟨.new, peer, true, [], [], timeout, []⟩

def connection : Connection := x.client.connection

/-- Something happens to the connection. -/
def happen (i : Incident) : Exchange π :=
  { x with client := { x.client with connection := x.connection.step i } }

/-- Waits for the response to a request that is made at a time. -/
def await (now number : Nat) : Exchange π :=
  { x with deadlines := x.deadlines ++ [(number, now + x.timeout)] }

/-- Gives a request up. -/
def abandon (number : Nat) : Exchange π :=
  { x with deadlines := x.deadlines.filter fun d => d.1 != number }.happen (.abandoned number)

/-- Lets requests fail whose time has come. -/
def expire (now : Nat) : Exchange π :=
  let live := x.deadlines.filter fun d => x.connection.awaited.contains d.1
  let (late, rest) := live.partition fun d => d.2 ≤ now
  late.foldl (fun x d => x.happen (.timedOut d.1 x.timeout)) { x with deadlines := rest }

/-- The server does something. -/
def doDeed : Deed → Exchange π
  | .send bytes => x.happen (.received bytes)
  | .closeInput => { x with isHeard := false, unread := [] }
  | .close => { x with isHeard := false, unread := [] }.happen .inputClosed

/-- The server does by itself what it has to do by a time. -/
def act (now : Nat) : Exchange π :=
  let (peer, deeds) := p.act x.peer now
  deeds.foldl doDeed { x with peer }

/-- Writes commands; the first fails if the server does not read. -/
def write : List Outgoing → Exchange π → Exchange π
  | [], x => x
  | o :: os, x =>
    if x.isHeard then
      write os { x.happen .wrote with unread := x.unread ++ [o.command.line o.number] }
    else x.happen .writeFailed

/-- The server reads lines. -/
def hear (now : Nat) : List (List Char) → Exchange π → Exchange π
  | [], x => { x with unread := [] }
  | line :: lines, x =>
    if x.isHeard then
      let (peer, deeds) := p.hear x.peer now line
      hear now lines (deeds.foldl doDeed { x with peer, heard := line :: x.heard })
    else x

/-- Whether nothing can be done at a time. -/
def isIdle (now : Nat) : Bool :=
  (x.connection.queue.isEmpty || !x.connection.isOpen) && x.unread.isEmpty
    && !(p.due x.peer).any (· ≤ now)
    && !x.deadlines.any fun d => d.2 ≤ now && x.connection.awaited.contains d.1

/-- Does everything that can be done at a time. -/
def settle (now : Nat) : Exchange π :=
  let x := (x.expire now).act p now
  let x := write x.connection.queue x
  let x := hear p now x.unread x
  { x with client := { x.client with connection := x.connection.receive } }

/-- When something is due. -/
def due : Option Nat :=
  ((p.due x.peer).toList ++
    (x.deadlines.filter fun d => x.connection.awaited.contains d.1).map (·.2)).min?

end Exchange

end AnySpans.Server
