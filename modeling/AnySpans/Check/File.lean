import AnySpans.Check.Answers
import AnySpans.CommandLine.Arguments
import AnySpans.Files.Store
import AnySpans.Report.Finding
import AnySpans.Report.Windows

/-!
# Checking a file

`checkFile` opens a file as a document, asks the type server for its errors, runs passes over the
lines that are wanted, and gathers what they find.  In the end it closes the document again, both in
the analyzer and on the server, whatever came between.
-/

namespace AnySpans.Check

open AnySpans.CommandLine AnySpans.Documents AnySpans.Files AnySpans.Lines AnySpans.Passes
open AnySpans.Report AnySpans.Server AnySpans.Settings AnySpans.Syntax AnySpans.Text

/-- The passes of an analyzer whose answers come from a server. -/
abbrev Running (π : Type) := Schedule (Answers π)

/-- Why a file was not checked. -/
inductive FileFailure where
  | unsupported
  | unreadable (e : FileError)
  | refused (e : SyntaxError)
  /-- A coordinate went out of range. -/
  | broken (f : Fault)
deriving Repr, Inhabited

/-- Where a program runs. -/
structure Surroundings where
  store : Store
  /-- The directory that paths start at. -/
  directory : String
  /-- The directory of all programs' settings. -/
  settings : String
  /-- The directories of programs. -/
  path : List String
deriving Repr, Inhabited

namespace Running

variable {π : Type} (p : Peer π) (fuel : Nat) (s : Running π)

/-- Passes over no documents, with a server that is in a given state. -/
def start (c : Config) (peer : π) (timeout : Nat) : Running π :=
  Schedule.start (.new c) ⟨.start peer timeout, []⟩

def withExchange (x : Exchange π) : Running π := { s with source := { s.source with exchange := x } }

/-- Asks for the errors of a document and waits for the answer. -/
def errorsOf (d : Snapshot) : Running π × Except Failure (List Range) :=
  let x := s.source.exchange
  let (client, r) := x.client.askRemarks d
  let x := { x with client }
  match r with
  | .error f => (withExchange s x, .error f)
  | .ok none => (withExchange s x, .ok [])
  | .ok (some number) =>
    let answer (s : Running π) : Option Server.Outcome := s.source.exchange.connection.outcome? number
    let s := (withExchange s (x.await s.now number)).runUntil (Answers.source p) fuel
      (fun s => (answer s).isSome) fuel
    (s, readErrors ((answer s).getD (.error .stopped)))

/-- Takes a document away from the analyzer and from the server. -/
def release (k : Key) : Running π :=
  let s := s.happen (.closed k)
  withExchange s { s.source.exchange with client := (s.source.exchange.client.forget k).1 }

/-- Runs a pass to its end; how it ended, if it did. -/
def pass (r : Request) : Running π × Option Ending :=
  let number := s.world.passes.length
  let hasEnded (s : Running π) : Bool := s.world.passes[number]?.any fun stage => stage.isDone
  let s := (s.happen (.spawned r)).runUntil (Answers.source p) fuel hasEnded fuel
  (s, match s.world.passes[number]? with
    | some (.done _ e) => some e
    | _ => none)

/-- Runs passes over the windows of a document, until the document turns out not to be analysed. -/
def passes (d : Snapshot) : List LineRange → Running π → Running π × Except FileFailure Unit
  | [], s => (s, .ok ())
  | w :: ws, s =>
    match pass p fuel s ⟨d, w⟩ with
    | (s, some (.refused e)) => (s, .error (.refused e))
    | (s, some (.broken f)) => (s, .error (.broken f))
    | (s, some (.outcome .unsupported)) | (s, some (.outcome .closed)) => (s, .ok ())
    | (s, _) => passes d ws s

/-- What was found in a document, in the order of its positions. -/
def findings (d : Snapshot) (file : String) : Except FileFailure (List Finding) :=
  let ranges := ((s.world.analyzer.sink.shown? d.key).getD []).mergeSort fun a b => a.start ≤ b.start
  (ranges.mapM (Finding.of file d.text.toList)).mapError .broken

/-- Looks at the wanted lines of a document. -/
def inspect (a : Arguments) (d : Snapshot) (file : String) :
    Running π × Except FileFailure (List Finding) :=
  let (s, errors) := errorsOf p fuel s d
  let s := match errors with
    | .ok ranges => s.happen (.errors d.key ranges)
    | .error _ => s
  match requestedLines a.lines d.lastLine with
  | .error f => (s, .error (.broken f))
  | .ok none => (s, .ok [])
  | .ok (some lines) =>
    match passes p fuel d (windows lines a.pageSize) s with
    | (s, .error e) => (s, .error e)
    | (s, .ok ()) => (s, findings s d file)

end Running

/-- Checks a file. -/
def checkFile {π : Type} (p : Peer π) (fuel : Nat) (place : Surroundings) (a : Arguments)
    (s : Running π) (file : String) : Running π × Except FileFailure (List Finding) :=
  match languageOfPath file with
  | none => (s, .error .unsupported)
  | some language =>
    match place.store.read (join place.directory file) with
    | .error e => (s, .error (.unreadable e))
    | .ok text =>
      let d : Snapshot := ⟨⟨absolute place.directory file⟩, language, text⟩
      let (s, found) := Running.inspect p fuel (s.happen (.opened d.key)) a d file
      (Running.release s d.key, found)

end AnySpans.Check
