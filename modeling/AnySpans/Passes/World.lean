import AnySpans.Passes.Analyzer

/-!
# Passes side by side

A `World` is an analyzer with all passes begun over it so far.  It changes by an `Event` at a time:
something happens to a document, or a pass makes a step.  A step that is not possible in a world has
no result; which of the possible events comes next is left open.
-/

namespace AnySpans.Passes

open AnySpans.Documents AnySpans.Lines AnySpans.Settings AnySpans.Syntax AnySpans.Text

/-- A question that was put to the type server. -/
structure Asked where
  pass : Nat
  document : Snapshot
  position : Position
deriving Repr, Inhabited

structure World where
  analyzer : Analyzer
  /-- The passes by their numbers. -/
  passes : List Stage
  /-- All questions so far, the latest first. -/
  asked : List Asked
deriving Repr, Inhabited

/-- What may happen. -/
inductive Event where
  | opened (k : Key)
  | closed (k : Key)
  | edited (k : Key)
  | errors (k : Key) (ranges : List Range)
  | configured (c : Config)
  /-- A pass is called for. -/
  | spawned (r : Request)
  /-- A pass begins. -/
  | begun (pass : Nat)
  /-- A pass asks its next question. -/
  | asked (pass : Nat)
  /-- A cancelled pass gives its next question up. -/
  | skipped (pass : Nat)
  /-- An answer comes, or is no longer waited for. -/
  | answered (pass number : Nat) (a : Answer)
  /-- A cancelled pass gives an open question up. -/
  | dropped (pass number : Nat)
  /-- A pass without open questions ends. -/
  | finished (pass : Nat)
deriving Repr, Inhabited

namespace World

/-- A world without documents and passes whose analyzer reads by the given readers. -/
def reading (readers : Readers) (c : Config) : World := ⟨.reading readers c, [], []⟩

/-- A world without documents and passes. -/
def new (c : Config) : World := reading .standard c

variable (w : World)

def setStage (pass : Nat) (s : Stage) : World := { w with passes := w.passes.set pass s }

/-- A pass that waits for answers. -/
def asking? (pass : Nat) : Option Work :=
  match w.passes[pass]? with
  | some (.asking k) => some k
  | _ => none

def isCancelled (k : Work) : Bool := w.analyzer.registry.isCancelled k.token

/-- The world after something happened to the documents. -/
def change (f : Analyzer → Analyzer) : World := { w with analyzer := f w.analyzer }

/-- The world after an event; none if it is not possible. -/
def step? : Event → Option World
  | .opened k => some (w.change fun a => a.open' k)
  | .closed k => some (w.change fun a => a.close k)
  | .edited k => some (w.change fun a => a.edit k)
  | .errors k ranges => some (w.change fun a => a.setErrors k ranges)
  | .configured c => some (w.change fun a => a.setConfig c)
  | .spawned r => some { w with passes := w.passes ++ [.ready r] }
  | .begun pass =>
    match w.passes[pass]? with
    | some (.ready r) =>
      let (a, s) := w.analyzer.beginPass r
      some ({ w with analyzer := a }.setStage pass s)
    | _ => none
  | .asked pass => do
    let k ← w.asking? pass
    if w.isCancelled k then none
    else
      let (q, fan) ← k.fan.ask?
      return { w.setStage pass (.asking { k with fan }) with
        asked := ⟨pass, k.request.document, q.candidate.position⟩ :: w.asked }
  | .skipped pass => do
    let k ← w.asking? pass
    if !w.isCancelled k then none
    else return w.setStage pass (.asking { k with fan := ← k.fan.skip? })
  | .answered pass number a => do
    let k ← w.asking? pass
    if w.isCancelled k then none
    else return w.setStage pass (.asking { k with fan := ← k.fan.answer? number a })
  | .dropped pass number => do
    let k ← w.asking? pass
    if !w.isCancelled k then none
    else return w.setStage pass (.asking { k with fan := ← k.fan.answer? number none })
  | .finished pass => do
    let k ← w.asking? pass
    if !k.fan.isDone then none
    else
      let (a, o) := w.analyzer.finishPass k
      return { w with analyzer := a }.setStage pass (.done k.request (.outcome o))

/-- The world after an event, or the same if it is not possible. -/
def step (e : Event) : World := (w.step? e).getD w

end World

/-- The worlds that can come about from given settings. -/
inductive Reachable (c : Config) : World → Prop
  | new : Reachable c (.new c)
  | step {w w' : World} {e : Event} : Reachable c w → w.step? e = some w' → Reachable c w'

theorem Reachable.of_step {c : Config} {w : World} (h : Reachable c w) (e : Event) :
    Reachable c (w.step e) := by
  unfold World.step
  cases he : w.step? e with
  | none => exact h
  | some w' => exact .step h he

end AnySpans.Passes
