import AnySpans.Server.Location

/-!
# Messages of the type server

The server sends responses to requests, and events.  A message is an object whose member `type`
tells which of the two it is, or a list that begins with that type.  The body of a response is kept
as it is; `QuickInfo` and `Remark` are the two kinds of bodies that are read further.
-/

namespace AnySpans.Server

open AnySpans.Decoding AnySpans.Json AnySpans.Text

/-- The answer to a request. -/
structure Response where
  /-- The number of the request. -/
  request : Nat
  command : String
  success : Bool
  message : Option String
  body : Option Value
deriving Inhabited, Repr

/-- News the server was not asked for. -/
structure Event where
  name : String
  body : Option Value
deriving Inhabited, Repr

inductive Message where
  | response (r : Response)
  | event (e : Event)
deriving Inhabited, Repr

/-- A body is kept with its members sorted. -/
private def readBody (v : Value) : Decoded Value := .ok v.sorted

def Response.record : Record Response :=
  ⟨"Response",
    [needed "request_seq" (readUnsigned 64) fun n r => { r with request := n },
     needed "command" readString fun s r => { r with command := s },
     needed "success" readBool fun b r => { r with success := b },
     optional "message" (readOptional readString) fun s r => { r with message := s },
     optional "body" (readOptional readBody) fun v r => { r with body := v }],
    ⟨0, "", false, none, none⟩⟩

def Event.record : Record Event :=
  ⟨"Event",
    [needed "event" readString fun s e => { e with name := s },
     optional "body" (readOptional readBody) fun v e => { e with body := v }],
    ⟨"", none⟩⟩

namespace Message

/-- The two kinds of messages. -/
inductive Kind where
  | response
  | event
deriving DecidableEq, Repr

/-- The kind a type stands for. -/
def readKind : Value → Decoded Kind
  | .string "response" => .ok .response
  | .string "event" => .ok .event
  | .string s => .error (.unknownVariant s ["response", "event"])
  | v => misplaced v "variant identifier"

/-- The kind of an object and its other members. -/
def splitKind (kind : Option Kind) (others : Members) : Members → Decoded (Kind × Members)
  | [] =>
    match kind with
    | some k => .ok (k, others.reverse)
    | none => .error (.missingField "type")
  | (key, v) :: ms =>
    if key = "type" then
      if kind.isSome then .error (.duplicateField "type")
      else do splitKind (some (← readKind v)) others ms
    else splitKind kind ((key, v) :: others) ms

/-- The message a value describes. -/
def decode : Value → Decoded Message
  | .object ms => do
    match ← splitKind none [] ms with
    | (.response, ms) => response <$> Response.record.ofMembers ms
    | (.event, ms) => event <$> Event.record.ofMembers ms
  | .list [] => .error (.missingField "type")
  | .list (v :: vs) => do
    match ← readKind v with
    | .response => response <$> Response.record.ofItems .counted vs
    | .event => event <$> Event.record.ofItems .counted vs
  | v => misplaced v "internally tagged enum Message"

end Message

/-! ### Bodies -/

/-- What the server knows about an identifier. -/
structure QuickInfo where
  kind : String
  /-- The declaration on one line. -/
  display : String
  start : Location
  stop : Location
deriving DecidableEq, Inhabited, Repr

def QuickInfo.record : Record QuickInfo :=
  ⟨"QuickInfoBody",
    [optional "kind" readString fun s q => { q with kind := s },
     needed "displayString" readString fun s q => { q with display := s },
     needed "start" Location.record.read fun l q => { q with start := l },
     needed "end" Location.record.read fun l q => { q with stop := l }],
    ⟨"", "", default, default⟩⟩

/-- A remark of the compiler. -/
structure Remark where
  start : Location
  stop : Location
  text : String
  code : Option Nat
  category : String
deriving DecidableEq, Inhabited, Repr

namespace Remark

def record : Record Remark :=
  ⟨"Diagnostic",
    [needed "start" Location.record.read fun l d => { d with start := l },
     needed "end" Location.record.read fun l d => { d with stop := l },
     needed "text" readString fun s d => { d with text := s },
     optional "code" (readOptional (readUnsigned 32)) fun n d => { d with code := n },
     optional "category" readString fun s d => { d with category := s }],
    ⟨default, default, "", none, ""⟩⟩

def isError (d : Remark) : Bool := d.category == "error"

def range (d : Remark) : Range := ⟨d.start.position, d.stop.position⟩

end Remark

end AnySpans.Server
