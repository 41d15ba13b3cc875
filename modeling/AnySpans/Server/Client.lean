import AnySpans.Documents.Table
import AnySpans.Server.Connection

/-!
# Documents on the type server

A `Client` remembers which text of each document the server has.  Before it asks about a document it
gives the server the document's text, unless the server has it already; so what the server answers
is about that text.
-/

namespace AnySpans.Server

open AnySpans.Decoding AnySpans.Documents AnySpans.Json AnySpans.Text

/-! ### What outcomes mean -/

/-- The body of a response; none if the server had nothing to say. -/
def Response.content? (r : Response) (command : String) : Except Failure (Option Value) :=
  if !r.success then .ok none
  else match r.body with
    | some v => .ok (some v)
    | none => .error (.noBody command)

/-- The body a request came to, read further. -/
def readContent {α : Type} (command : String) (read : Value → Decoded α) (o : Outcome) :
    Except Failure (Option α) := do
  match ← (← o).content? command with
  | none => return none
  | some v => some <$> (read v).mapError .unfit

/-- What a question about an identifier came to. -/
def readInfo (o : Outcome) : Except Failure (Option QuickInfo) :=
  readContent "quickinfo" QuickInfo.record.read o

/-- The ranges of errors that a question for remarks came to. -/
def readErrors (o : Outcome) : Except Failure (List Range) := do
  let remarks ← readContent "semanticDiagnosticsSync" (readList Remark.record.read) o
  return ((remarks.getD []).filter Remark.isError).map Remark.range

/-! ### The texts of documents -/

/-- How the server takes a language; it does not know all of them. -/
def scriptKind? : String → Option String
  | "typescript" => some "TS"
  | "typescriptreact" => some "TSX"
  | _ => none

structure Client where
  connection : Connection
  /-- The texts that were given to the server. -/
  texts : Table String
deriving Inhabited

namespace Client

/-- A client that has given nothing. -/
def new : Client := ⟨.new, ∅⟩

variable (c : Client)

/-- Gives commands that are not answered. -/
def give (commands : List Command) : Except Failure Client :=
  if c.connection.isOpen then
    .ok { c with connection := commands.foldl (fun k m => k.call m false) c.connection }
  else .error .stopped

/-- Gives a request; its number. -/
def request (m : Command) : Client × Nat :=
  ({ c with connection := c.connection.call m true }, c.connection.calls + 1)

/-- Gives the server a document's text; false if it does not take the language. -/
def sync (d : Snapshot) : Client × Except Failure Bool :=
  match scriptKind? d.language with
  | none => (c, .ok false)
  | some kind =>
    if c.texts.get? d.key = some d.text then (c, .ok true)
    else
      let closing := if c.texts.contains d.key then [Command.closeFile d.key.path] else []
      match c.give (closing ++ [.openFile d.key.path d.text (some kind)]) with
      | .ok c => ({ c with texts := c.texts.put d.key d.text }, .ok true)
      | .error f => (c, .error f)

/-- Takes a document's text from the server. -/
def forget (k : Key) : Client × Except Failure Unit :=
  if c.texts.contains k then
    let c := { c with texts := c.texts.erase k }
    match c.give [.closeFile k.path] with
    | .ok c => (c, .ok ())
    | .error f => (c, .error f)
  else (c, .ok ())

/-- Asks about a document; the number of the request, or none if its language is not taken. -/
def ask (d : Snapshot) (m : Command) : Client × Except Failure (Option Nat) :=
  match c.sync d with
  | (c, .error f) => (c, .error f)
  | (c, .ok false) => (c, .ok none)
  | (c, .ok true) =>
    let (c, number) := c.request m
    (c, .ok (some number))

/-- Asks about an identifier. -/
def askInfo (d : Snapshot) (at' : Location) : Client × Except Failure (Option Nat) :=
  c.ask d (.quickInfo d.key.path at')

/-- Asks for the compiler's remarks. -/
def askRemarks (d : Snapshot) : Client × Except Failure (Option Nat) :=
  c.ask d (.remarks d.key.path)

end Client

end AnySpans.Server
