import AnySpans.Documents.Registry
import AnySpans.Passes.Fanout
import AnySpans.Settings.Config
import AnySpans.Syntax.Parse

/-!
# Passes over documents

An `Analyzer` keeps the registry of open documents, the settings, and what was shown.  A pass over
some lines of a document is begun, asks about the identifiers on those lines that were not looked at
before, and is finished; in between anything may happen to the documents.  Its results are kept and
shown only if its document is still the same.
-/

namespace AnySpans.Passes

open AnySpans.Documents AnySpans.Lines AnySpans.Settings AnySpans.Syntax AnySpans.Text

/-- How a pass ended. -/
inductive Outcome where
  /-- Documents of this language are not analysed. -/
  | unsupported
  /-- The document was not open. -/
  | closed
  /-- All lines had been looked at; what was found is shown again. -/
  | cached
  /-- What was found was kept and shown. -/
  | committed (candidates hits : Nat)
  /-- The document changed or was closed meanwhile. -/
  | stale
deriving DecidableEq, Repr, Inhabited

/-- How a pass ended, if it was not cut short. -/
inductive Ending where
  | outcome (o : Outcome)
  /-- The document could not be parsed. -/
  | refused (e : SyntaxError)
  /-- A node of the tree had impossible lines. -/
  | broken (f : Fault)
deriving DecidableEq, Repr, Inhabited

/-- A pass that waits for answers. -/
structure Work where
  request : Request
  ticket : Ticket
  token : Token
  /-- The number of identifiers it asks about. -/
  candidates : Nat
  /-- How long it waits for an answer. -/
  timeout : Nat
  fan : Fanout
deriving Repr, Inhabited

/-- How far a pass has come. -/
inductive Stage where
  | ready (r : Request)
  | asking (w : Work)
  | done (r : Request) (e : Ending)
deriving Repr, Inhabited

def Stage.isDone : Stage → Bool
  | .done _ _ => true
  | _ => false

/-- What was shown: all calls, the latest first, and the style. -/
structure Sink where
  calls : List (Key × List Range)
  style : Style
deriving Repr, Inhabited

/-- The ranges shown last for a document. -/
def Sink.shown? (s : Sink) (k : Key) : Option (List Range) :=
  (s.calls.find? fun c => c.1 == k).map (·.2)

structure Analyzer where
  registry : Registry
  config : Config
  sink : Sink
  /-- What reads the documents. -/
  readers : Readers
deriving Repr, Inhabited

/-- The identifiers on some lines, in the order of their ranges, each range once. -/
def questions (t : Tree) (lines : IntervalSet) : Except Fault (List Candidate) :=
  (findIdentifiers t (some lines)).map fun s =>
    distinct (s.candidates.mergeSort fun a b => (a.range.order b.range).isLE)
where
  /-- Leaves out what has the range of its predecessor. -/
  distinct : List Candidate → List Candidate
    | [] => []
    | c :: cs => c :: after c.range cs
  after (r : Range) : List Candidate → List Candidate
    | [] => []
    | c :: cs => if c.range = r then after r cs else c :: after c.range cs

namespace Analyzer

/-- An analyzer without documents that reads by the given readers. -/
def reading (readers : Readers) (c : Config) : Analyzer := ⟨.empty, c, ⟨[], c.style⟩, readers⟩

/-- An analyzer without documents. -/
def new (c : Config) : Analyzer := reading .standard c

variable (a : Analyzer)

/-- Shows what was found in a document, if anything was looked at. -/
def render (k : Key) : Analyzer :=
  match a.registry.shown k a.config.surfaceErrors with
  | some ranges => { a with sink := { a.sink with calls := (k, ranges) :: a.sink.calls } }
  | none => a

def open' (k : Key) : Analyzer := { a with registry := a.registry.open' k }

def close (k : Key) : Analyzer := { a with registry := a.registry.close k }

def edit (k : Key) : Analyzer := { a with registry := a.registry.edit k }

/-- Replaces the ranges of compiler errors of a document and shows it again. -/
def setErrors (k : Key) (errors : List Range) : Analyzer :=
  if a.registry.isOpen k then { a with registry := a.registry.setErrors k errors }.render k else a

/-- Replaces the settings and shows all documents again. -/
def setConfig (c : Config) : Analyzer :=
  a.registry.sessions.keys.foldl render
    { a with config := c, sink := { a.sink with style := c.style } }

/-- A pass that has a tree asks about the identifiers on the lines that it has to look at. -/
def beginAsking (r : Request) (t : Ticket) (token : Token) (lines : IntervalSet) (tree : Tree) :
    Stage :=
  match questions tree lines with
  | .error f => .done r (.broken f)
  | .ok cs =>
    .asking ⟨r, t, token, cs.length, a.config.queryTimeout, .start a.config.maxQueries cs⟩

/-- Begins a pass: plans it, gets a tree, and finds what to ask about. -/
def beginPass (r : Request) : Analyzer × Stage :=
  match Dialect.detect r.document.language r.document.text.toList with
  | none => (a, .done r (.outcome .unsupported))
  | some d =>
    match a.registry.plan r.key r.visible d with
    | .closed => (a, .done r (.outcome .closed))
    | .cached => (a.render r.key, .done r (.outcome .cached))
    | .work t lines token (some tree) => (a, a.beginAsking r t token lines tree)
    | .work t lines token none =>
      match a.readers.parse d r.document.text.toList with
      | .error e => (a, .done r (.refused e))
      | .ok tree =>
        ({ a with registry := a.registry.storeTree t d tree }, a.beginAsking r t token lines tree)

/-- Ends a pass that has all answers. -/
def finishPass (w : Work) : Analyzer × Outcome :=
  match a.registry.commit? w.ticket w.request.visible w.fan.hits with
  | some registry =>
    ({ a with registry }.render w.request.key, .committed w.candidates w.fan.hits.length)
  | none => (a, .stale)

end Analyzer

end AnySpans.Passes
