import AnySpans.Passes.Schedule
import AnySpans.Passes.Service

/-!
# Running a service in order

A `Hosted` service handles each notice as it comes.  Its clock is that of its passes; the passes that
are due are called for when their time has come, after what the other passes do at that moment.
-/

namespace AnySpans.Passes

open AnySpans.Settings

structure Hosted (σ : Type) where
  schedule : Schedule σ
  /-- The requests; none once no more notices are taken. -/
  desk : Option Desk

namespace Hosted

variable {σ : Type} (src : Source σ) (h : Hosted σ)

/-- No notice has come. -/
def start (c : Config) (source : σ) : Hosted σ := ⟨.start (.new c) source, some (.new c)⟩

/-- The service after the desk has done something. -/
def apply (r : Desk × List Event) : Hosted σ := ⟨r.2.foldl .happen h.schedule, some r.1⟩

/-- Handles a notice, if it is taken. -/
def tell? (n : Notice) : Option (Hosted σ) :=
  h.desk.map fun d => h.apply (d.handle h.schedule.now n)

/-- Calls for the passes that are due. -/
def release : Hosted σ :=
  match h.desk with
  | some d => h.apply (d.release h.schedule.now)
  | none => h

/-- When passes are due. -/
def due : Option Nat := h.desk.bind fun d => d.debouncer.nextDue

/-- Lets everything go on that can, the clock standing still. -/
def settle (fuel : Nat) : Hosted σ := { h with schedule := h.schedule.settle src fuel }

/-- Lets things go on up to a time. -/
def runTo (fuel time : Nat) : (turns : Nat) → Hosted σ → Hosted σ
  | 0, h => h
  | turns + 1, h =>
    match h.due.filter (· ≤ time) with
    | some next =>
      let schedule := h.schedule.runTo src fuel (max next h.schedule.now) fuel
      runTo fuel time turns { h with schedule }.release
    | none => { h with schedule := h.schedule.runTo src fuel time fuel }

/-- Takes no more notices, drops the requests that wait, and runs the passes to their ends. -/
def shutDown (fuel : Nat) : Hosted σ :=
  ⟨h.schedule.runUntil src fuel (fun s => s.world.passes.all Stage.isDone) fuel, none⟩

end Hosted

end AnySpans.Passes
