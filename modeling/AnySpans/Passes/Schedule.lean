import AnySpans.Passes.World

/-!
# Running passes in order

A `Schedule` runs the passes of a world one after another on a clock of its own.  Passes that can go
on stand in a queue; so do, in each pass, the questions it can look at.  The clock moves on to the
next moment at which something is due only when nothing else can be done.

Where the answers come from is left to a `Source`: it is asked, looked at, and told what is no longer
waited for.
-/

namespace AnySpans.Passes

open AnySpans.Documents AnySpans.Text

/-- A question, by the numbers of its pass and of its place there. -/
structure Call where
  pass : Nat
  number : Nat
deriving DecidableEq, Repr, Inhabited

/-- Something that answers questions; its states are of type `σ`. -/
structure Source (σ : Type) where
  /-- A question is put at a time. -/
  ask : σ → (now : Nat) → Call → Snapshot → Position → σ
  /-- What has become of a question. -/
  look : σ → (now : Nat) → Call → σ × Option Answer
  /-- A question is no longer waited for. -/
  forget : σ → Call → σ
  /-- What goes on by itself at a time, and the questions that should be looked at for it. -/
  work : σ → (now : Nat) → Option (σ × List Call)
  /-- When something will go on by itself. -/
  due : σ → Option Nat

/-- What a pass can look at next: a question that it could ask, or one that is open. -/
inductive Item where
  | next
  | open' (number : Nat)
deriving DecidableEq, Repr, Inhabited

structure Schedule (σ : Type) where
  now : Nat
  world : World
  source : σ
  /-- The passes that can go on. -/
  ready : List Nat
  /-- What the passes can look at, by their numbers. -/
  items : List (List Item)
  /-- When the open questions are given up. -/
  deadlines : List (Call × Nat)
  /-- The largest number of open questions, seen when one was asked. -/
  most : Nat

namespace Schedule

variable {σ : Type} (src : Source σ) (s : Schedule σ)

/-- Nothing has happened. -/
def start (w : World) (source : σ) : Schedule σ := ⟨0, w, source, [], [], [], 0⟩

def itemsOf (pass : Nat) : List Item := s.items.getD pass []

def setItems (pass : Nat) (items : List Item) : Schedule σ :=
  { s with items := s.items.set pass items }

/-- Lets a pass go on. -/
def wakePass (pass : Nat) : Schedule σ :=
  if s.ready.contains pass then s else { s with ready := s.ready ++ [pass] }

/-- Lets a pass look at an open question. -/
def wake (c : Call) : Schedule σ :=
  let items := s.itemsOf c.pass
  (if items.contains (.open' c.number) then s
    else s.setItems c.pass (items ++ [.open' c.number])).wakePass c.pass

/-- The questions of cancelled passes. -/
def cancelledCalls : List Call :=
  s.world.passes.zipIdx.flatMap fun (stage, pass) =>
    match stage with
    | .asking k => if s.world.isCancelled k then k.fan.running.map fun q => ⟨pass, q.number⟩ else []
    | _ => []

/-- Lets something happen, and those go on whom it concerns. -/
def happen (e : Event) : Schedule σ :=
  let before := s.world.passes.length
  let w := s.world.step e
  let new := (List.range w.passes.length).drop before
  let s := { s with world := w, items := s.items ++ new.map fun _ => [] }
  let s := new.foldl wakePass s
  s.cancelledCalls.foldl wake s

/-- Adds to what a pass can look at as many questions as it could ask. -/
def fill (pass : Nat) : Schedule σ :=
  match s.world.asking? pass with
  | none => s
  | some k =>
    let items := s.itemsOf pass
    let next := items.count .next
    let free := k.fan.limit - (k.fan.running.length + next)
    s.setItems pass (items ++ List.replicate (min free (k.fan.waiting.length - next)) .next)

/-- The number of open questions of all passes. -/
def openCount : Nat :=
  s.world.passes.foldr (fun st n =>
    match st with
    | .asking k => k.fan.running.length + n
    | _ => n) 0

def forgetDeadline (c : Call) : Schedule σ :=
  { s with deadlines := s.deadlines.filter fun d => d.1 ≠ c }

/-- An open question is settled by an event. -/
def settleCall (c : Call) (e : Event) : Schedule σ :=
  ({ s with world := s.world.step e }.forgetDeadline c).fill c.pass

/-- Looks at an open question; true if it is settled. -/
def lookAt (c : Call) : Schedule σ × Bool :=
  match s.world.asking? c.pass with
  | none => (s, false)
  | some k =>
    if (k.fan.running? c.number).isNone then (s, false)
    else if s.world.isCancelled k then
      ({ s with source := src.forget s.source c }.settleCall c (.dropped c.pass c.number), true)
    else
      let (source, answer) := src.look s.source s.now c
      let s := { s with source }
      match answer with
      | some a => (s.settleCall c (.answered c.pass c.number a), true)
      | none =>
        if s.deadlines.any fun d => d.1 == c && d.2 ≤ s.now then
          ({ s with source := src.forget s.source c }.settleCall c (.answered c.pass c.number none),
            true)
        else (s, false)

/-- Asks the next question of a pass and looks at it, or gives it up. -/
def askNext (pass : Nat) (k : Work) : Schedule σ :=
  if s.world.isCancelled k then
    { s with world := s.world.step (.skipped pass) }.fill pass
  else
    match k.fan.ask? with
    | none => s
    | some (q, _) =>
      let c : Call := ⟨pass, q.number⟩
      let s := { s with
        world := s.world.step (.asked pass)
        source := src.ask s.source s.now c k.request.document q.candidate.position
        deadlines := s.deadlines ++ [(c, s.now + k.timeout)] }
      let s := { s with most := max s.most s.openCount }
      (s.lookAt src c).1

/-- Looks at what a pass can look at, one after another; ends the pass if nothing is left to ask. -/
def lookAround (pass : Nat) : (fuel : Nat) → Schedule σ → Schedule σ
  | 0, s => s
  | fuel + 1, s =>
    match s.world.asking? pass with
    | none => s
    | some k =>
      match s.itemsOf pass with
      | [] => if k.fan.isDone then { s with world := s.world.step (.finished pass) } else s
      | .next :: items => lookAround pass fuel ((s.setItems pass items).askNext src pass k)
      | .open' number :: items =>
        lookAround pass fuel ((s.setItems pass items).lookAt src ⟨pass, number⟩).1

/-- How often a pass can look at something at most before it has to wait. -/
def bound (pass : Nat) : Nat :=
  (s.itemsOf pass).length + match s.world.asking? pass with
    | some k => k.fan.waiting.length + 1
    | none => 1

/-- Lets a pass go on until it has to wait. -/
def goOn (pass : Nat) : Schedule σ :=
  match s.world.passes[pass]? with
  | some (.ready _) =>
    let s := { s with world := s.world.step (.begun pass) }.fill pass
    lookAround src pass (s.bound pass) s
  | some (.asking _) => lookAround src pass (s.bound pass) s
  | _ => s

/-- Lets everything go on that can, the clock standing still. -/
def settle : (fuel : Nat) → Schedule σ → Schedule σ
  | 0, s => s
  | fuel + 1, s =>
    match s.ready with
    | pass :: ready => settle fuel ({ s with ready }.goOn src pass)
    | [] =>
      match src.work s.source s.now with
      | some (source, calls) => settle fuel (calls.foldl wake { s with source })
      | none => s

/-- When something is due next. -/
def due : Option Nat := ((src.due s.source).toList ++ s.deadlines.map (·.2)).min?

/-- Moves the clock to a time and gives up questions whose time has come. -/
def moveTo (time : Nat) : Schedule σ :=
  let expired := (s.deadlines.filter fun d => d.2 ≤ time).mergeSort fun a b => a.2 ≤ b.2
  expired.foldl (fun s d => s.wake d.1) { s with now := time }

/-- Lets things go on until something is so. -/
def runUntil (fuel : Nat) (stop : Schedule σ → Bool) : (turns : Nat) → Schedule σ → Schedule σ
  | 0, s => s
  | turns + 1, s =>
    let s := settle src fuel s
    if stop s then s
    else match s.due src with
      | some time => runUntil fuel stop turns (s.moveTo (max time s.now))
      | none => s

/-- Lets things go on up to a time. -/
def runTo (fuel time : Nat) : (turns : Nat) → Schedule σ → Schedule σ
  | 0, s => s
  | turns + 1, s =>
    let s := settle src fuel s
    match (s.due src).filter (· ≤ time) with
    | some next => runTo fuel time turns (s.moveTo (max next s.now))
    | none => settle src fuel { s with now := max time s.now }

end Schedule

end AnySpans.Passes
