import AnySpans.Documents.Table
import AnySpans.Lines.IntervalSet
import AnySpans.Signature.Diagnostic
import AnySpans.Syntax.Dialect
import AnySpans.Syntax.Tree

/-!
# The registry of open documents

Each time a document is opened a `Session` begins; each edit begins a new generation in it, and what
was found in the one before is dropped.  A pass over a document plans its work with `plan`, which
gives it a `Ticket` for the session and generation of that moment; only with a current ticket can it
keep a tree (`storeTree`) and its results (`commit?`).  A token is handed out with the ticket; it is
cancelled when the ticket stops being current.  Documents that are not open are never changed.

Sessions, generations and tokens are numbered without end, where 64 bits would come round to zero
again: runs of fewer than `2 ^ 64` operations are meant.
-/

namespace AnySpans.Documents

open AnySpans.Lines AnySpans.Text AnySpans.Syntax AnySpans.Signature

/-- Names a generation of a session for its cancellation. -/
abbrev Token := Nat

/-- What was found in a generation. -/
structure Analysis where
  generation : Nat
  /-- The lines that were looked at. -/
  checked : IntervalSet
  /-- The ranges of type `any`, in the order in which they were found. -/
  anys : List Range
deriving Repr, Inhabited

/-- A tree with the generation and the dialect it was parsed in. -/
structure KeptTree where
  tree : Tree
  generation : Nat
  dialect : Dialect
deriving Repr, Inhabited

/-- A document from its opening to its closing. -/
structure Session where
  number : Nat
  /-- The number of edits so far, of which there are fewer than `2 ^ 64`. -/
  generation : Nat
  analysis : Option Analysis
  tree : Option KeptTree
  /-- The ranges of compiler errors. -/
  errors : List Range
  token : Token
deriving Repr, Inhabited

/-- The right to store what a pass finds. -/
structure Ticket where
  key : Key
  session : Nat
  generation : Nat
deriving Repr, Inhabited

namespace Session

/-- A session that begins. -/
def new (number : Nat) (token : Token) : Session := ⟨number, 0, none, none, [], token⟩

variable (s : Session)

/-- What was found in the present generation. -/
def current? : Option Analysis := s.analysis.filter fun a => a.generation == s.generation

/-- The tree of the present generation in a dialect. -/
def tree? (d : Dialect) : Option Tree :=
  (s.tree.filter fun t => t.generation == s.generation && t.dialect == d).map KeptTree.tree

/-- The lines of a range that were not looked at. -/
def uncovered (visible : LineRange) : IntervalSet :=
  match s.current? with
  | some a => a.checked.uncovered visible
  | none => .ofRange visible

/-- The session after an edit. -/
def edited (token : Token) : Session :=
  { s with generation := s.generation + 1, analysis := none, tree := none, token }

/-- Whether a ticket is for this session and generation. -/
def admits (t : Ticket) : Bool := s.number == t.session && s.generation == t.generation

/-- The session with the results of a pass. -/
def withResults (visible : LineRange) (hits : List Range) : Session :=
  { s with analysis := some (match s.current? with
      | some a => { a with anys := a.anys ++ hits, checked := a.checked.add visible }
      | none => ⟨s.generation, .ofRange visible, hits⟩) }

/-- The ranges to show; those that touch an error only on demand. -/
def shown (surfaceErrors : Bool) : Option (List Range) :=
  s.current?.map fun a => if surfaceErrors then a.anys else retainActionable a.anys s.errors

end Session

/-- The open documents. -/
structure Registry where
  sessions : Table Session
  /-- The number of sessions so far, of which there are fewer than `2 ^ 64`. -/
  opened : Nat
  /-- The number of tokens so far. -/
  tokens : Nat
  cancelled : List Token
deriving Repr, Inhabited

/-- What a pass has to do. -/
inductive Plan where
  /-- The document is not open. -/
  | closed
  /-- All lines were looked at before. -/
  | cached
  | work (ticket : Ticket) (uncovered : IntervalSet) (token : Token) (tree : Option Tree)
deriving Repr, Inhabited

namespace Registry

/-- The registry without documents. -/
def empty : Registry := ⟨∅, 0, 0, []⟩

variable (r : Registry)

def session? (k : Key) : Option Session := r.sessions.get? k

def isOpen (k : Key) : Bool := (r.session? k).isSome

def generation? (k : Key) : Option Nat := (r.session? k).map Session.generation

/-- What was found in a document's present generation. -/
def analysis? (k : Key) : Option Analysis := (r.session? k).bind Session.current?

def isCancelled (token : Token) : Bool := r.cancelled.contains token

/-- Begins a session of a document that is not open. -/
def open' (k : Key) : Registry :=
  if r.isOpen k then r
  else { r with
    sessions := r.sessions.put k (.new (r.opened + 1) r.tokens)
    opened := r.opened + 1
    tokens := r.tokens + 1 }

/-- Ends a document's session. -/
def close (k : Key) : Registry :=
  match r.session? k with
  | none => r
  | some s => { r with sessions := r.sessions.erase k, cancelled := s.token :: r.cancelled }

/-- Begins a generation of an open document. -/
def edit (k : Key) : Registry :=
  match r.session? k with
  | none => r
  | some s => { r with
      sessions := r.sessions.put k (s.edited r.tokens)
      tokens := r.tokens + 1
      cancelled := s.token :: r.cancelled }

/-- Replaces the ranges of compiler errors of an open document. -/
def setErrors (k : Key) (errors : List Range) : Registry :=
  { r with sessions := r.sessions.modify k fun s => { s with errors } }

/-- What there is to do for some lines of a document. -/
def plan (k : Key) (visible : LineRange) (d : Dialect) : Plan :=
  match r.session? k with
  | none => .closed
  | some s =>
    let uncovered := s.uncovered visible
    if uncovered.isEmpty then .cached
    else .work ⟨k, s.number, s.generation⟩ uncovered s.token (s.tree? d)

/-- The session a ticket is for, if it is current. -/
def current? (t : Ticket) : Option Session := (r.session? t.key).filter fun s => s.admits t

def isCurrent (t : Ticket) : Bool := (r.current? t).isSome

/-- Keeps a tree. -/
def storeTree (t : Ticket) (d : Dialect) (tree : Tree) : Registry :=
  match r.current? t with
  | none => r
  | some s =>
    { r with sessions := r.sessions.put t.key { s with tree := some ⟨tree, t.generation, d⟩ } }

/-- Keeps results: the ranges found, and that all lines of `visible` were looked at; none if the
ticket is not current. -/
def commit? (t : Ticket) (visible : LineRange) (hits : List Range) : Option Registry :=
  (r.current? t).map fun s =>
    { r with sessions := r.sessions.put t.key (s.withResults visible hits) }

/-- Keeps results if the ticket is current. -/
def commit (t : Ticket) (visible : LineRange) (hits : List Range) : Registry :=
  (r.commit? t visible hits).getD r

/-- The ranges of a document to show; none if nothing was looked at yet. -/
def shown (k : Key) (surfaceErrors : Bool) : Option (List Range) :=
  (r.session? k).bind fun s => s.shown surfaceErrors

end Registry

end AnySpans.Documents
