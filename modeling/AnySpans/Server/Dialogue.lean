import AnySpans.Server.Exchange

/-!
# Errands on a connection

A `Dialogue` runs errands that begin at given times side by side, on a clock that moves on only when
nothing else can be done.  When an errand has a request open it waits for the response; a request
whose time is over fails before a response of the same moment is read.
-/

namespace AnySpans.Server

open AnySpans.Documents AnySpans.Json AnySpans.Lines AnySpans.Text

/-- What is to be done. -/
inductive Errand where
  | quickInfo (file : String) (position : Position)
  | errors (file : String)
  | request (c : Command)
  | notify (c : Command)
  /-- Asks the server to end. -/
  | shutDown
  | sync (d : Snapshot)
  | forget (k : Key)
  /-- Asks for the signature at a position of a document. -/
  | typeAt (d : Snapshot) (position : Position)
  /-- Asks for the errors of a document. -/
  | errorsOf (d : Snapshot)
  | rest (duration : Nat)
deriving Inhabited

/-- What an errand brings. -/
inductive Yield where
  | nothing
  | truth (b : Bool)
  | info (i : Option QuickInfo)
  | ranges (rs : List Range)
  | response (r : Response)
  | signature (s : Option String)
deriving Inhabited

/-- Why an errand brings nothing. -/
inductive Trouble where
  | failure (f : Failure)
  | inability (i : Inability)
deriving Inhabited

/-- The wording of a trouble. -/
def Trouble.message : Trouble → String
  | failure f => f.message
  | inability i => i.message

/-- How far an errand has come. -/
inductive Progress where
  /-- It has not begun. -/
  | waiting (start : Nat)
  | resting (stop : Nat)
  | asked (number : Nat)
  | done (r : Except Trouble Yield)
deriving Inhabited

structure Task where
  errand : Errand
  progress : Progress
deriving Inhabited

namespace Errand

/-- What the response to an errand's request brings. -/
def read (o : Outcome) : Errand → Except Trouble Yield
  | .quickInfo _ _ => (Yield.info <$> readInfo o).mapError .failure
  | .errors _ | .errorsOf _ => (Yield.ranges <$> readErrors o).mapError .failure
  | .typeAt _ _ =>
    ((fun i => Yield.signature (i.map QuickInfo.display)) <$> readInfo o).mapError
      fun f => .inability (.ofFailure f)
  | _ => (Yield.response <$> o).mapError .failure

end Errand

structure Dialogue (π : Type) where
  now : Nat
  exchange : Exchange π
  tasks : List Task

namespace Dialogue

variable {π : Type} (p : Peer π)

/-- The exchange with another client. -/
private def withClient (x : Exchange π) (c : Client) : Exchange π := { x with client := c }

private def ended (r : Except Failure Yield) : Progress := .done (r.mapError .failure)

/-- Makes a request. -/
private def ask (now : Nat) (x : Exchange π) (c : Command) : Exchange π × Progress :=
  let (client, number) := x.client.request c
  ((withClient x client).await now number, .asked number)

/-- Makes a request about a document; `none'` is what it brings if there is nothing to ask. -/
private def askAbout (now : Nat) (x : Exchange π) (none' : Yield) (trouble : Failure → Trouble) :
    Client × Except Failure (Option Nat) → Exchange π × Progress
  | (client, .error f) => (withClient x client, .done (.error (trouble f)))
  | (client, .ok none) => (withClient x client, .done (.ok none'))
  | (client, .ok (some number)) => ((withClient x client).await now number, .asked number)

/-- Gives a command that is not answered. -/
private def tell (x : Exchange π) (c : Command) : Exchange π × Except Failure Yield :=
  match x.client.give [c] with
  | .ok client => (withClient x client, .ok .nothing)
  | .error f => (x, .error f)

/-- An errand begins. -/
def begin' (now : Nat) (x : Exchange π) : Errand → Except Fault (Exchange π × Progress)
  | .quickInfo file position => do
    return ask now x (.quickInfo file (← Location.ofPosition position))
  | .errors file => .ok (ask now x (.remarks file))
  | .request c => .ok (ask now x c)
  | .notify c =>
    let (x, r) := tell x c
    .ok (x, ended r)
  | .shutDown => .ok ((tell x .exit).1, .done (.ok .nothing))
  | .sync d =>
    let (client, r) := x.client.sync d
    .ok (withClient x client, ended (r.map .truth))
  | .forget k =>
    let (client, r) := x.client.forget k
    .ok (withClient x client, ended (r.map fun _ => .nothing))
  | .typeAt d position => do
    if (scriptKind? d.language).isNone then return (x, .done (.ok (.signature none)))
    let (client, synced) := x.client.sync d
    match synced with
    | .error f => return (withClient x client, .done (.error (.inability (.ofFailure f))))
    | .ok _ =>
      let place ← Location.ofPosition position
      return askAbout now x (.signature none) (fun f => .inability (.ofFailure f))
        (x.client.askInfo d place)
  | .errorsOf d => .ok (askAbout now x (.ranges []) .failure (x.client.askRemarks d))
  | .rest duration =>
    .ok (x, if duration = 0 then .done (.ok .nothing) else .resting (now + duration))

/-- A task goes on as far as it can. -/
def goOn (now : Nat) (x : Exchange π) (t : Task) : Except Fault (Exchange π × Task) := do
  let (x, t) ← match t.progress with
    | .waiting start =>
      if start ≤ now then do
        let (x, progress) ← begin' now x t.errand
        pure (x.expire now, { t with progress })
      else pure (x, t)
    | _ => pure (x, t)
  match t.progress with
  | .resting stop => return (x, if stop ≤ now then { t with progress := .done (.ok .nothing) } else t)
  | .asked number =>
    match x.connection.outcome? number with
    | some o => return (x, { t with progress := .done (t.errand.read o) })
    | none => return (x, t)
  | _ => return (x, t)

/-- All tasks go on, one after another. -/
def goOnAll (now : Nat) (x : Exchange π) : List Task → Except Fault (Exchange π × List Task)
  | [] => .ok (x, [])
  | t :: ts => do
    let (x, t) ← goOn now x t
    let (x, ts) ← goOnAll now x ts
    return (x, t :: ts)

variable (d : Dialogue π)

def advance : Except Fault (Dialogue π) := do
  let (exchange, tasks) ← goOnAll d.now (d.exchange.expire d.now) d.tasks
  return { d with exchange, tasks }

/-- Does everything that can be done, the clock standing still. -/
def settle : Except Fault (Dialogue π) := do
  let d ← d.advance
  { d with exchange := d.exchange.settle p d.now }.advance

/-- When something is due. -/
def due : Option Nat :=
  let own := d.tasks.filterMap fun t =>
    match t.progress with
    | .waiting start => some start
    | .resting stop => some stop
    | _ => none
  ((d.exchange.due p).toList ++ own).min?

def isDone : Bool := d.tasks.all fun t => t.progress matches .done _

/-- Runs the tasks to their ends. -/
def run : (turns : Nat) → Dialogue π → Except Fault (Dialogue π)
  | 0, d => .ok d
  | turns + 1, d => do
    let d ← d.settle p
    if d.isDone then return d
    else match d.due p with
      | some time => run turns { d with now := max time d.now }
      | none => return d

/-- Runs errands, each after a while of its own. -/
def runAll (errands : List (Nat × Errand)) (turns : Nat) : Except Fault (Dialogue π) :=
  run p turns { d with tasks := errands.map fun (after, e) => ⟨e, .waiting (d.now + after)⟩ }

/-- What the errands brought. -/
def yields : List (Except Trouble Yield) :=
  d.tasks.filterMap fun t =>
    match t.progress with
    | .done r => some r
    | _ => none

end Dialogue

end AnySpans.Server
