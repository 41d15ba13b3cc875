import AnySpans.Server.Exchange
import AnySpans.Text.Name

/-!
# A server that follows rules

A `Script` answers commands by the first rule that fits.  It remembers the texts of the files that
were opened, so that rules can tell identifiers by their names.
-/

namespace AnySpans.Server

open AnySpans.Json AnySpans.Text

/-- What a rule does. -/
inductive Reply where
  | close
  | closeInput
  /-- Sends a text, with a mark for the number of the request. -/
  | raw (text : String)
  /-- Answers a declaration, with a mark for the name. -/
  | display (text : String)
  | fail (message : String)
  | noBody
  | body (v : Value)
  | silence
deriving Repr, Inhabited

/-- How a command is answered. -/
structure Rule where
  command : String
  /-- The end of the file's name. -/
  file : Option String
  line : Option Nat
  offset : Option Nat
  /-- The name at the location. -/
  name : Option String
  /-- Which of the commands that fit is answered, counted from zero; all if none is given. -/
  nth : Option Nat
  /-- The command that the answer names. -/
  answerTo : Option String
  delay : Nat
  reply : Reply
deriving Repr, Inhabited

/-- A command as it is heard. -/
structure Heard where
  number : Value
  command : String
  arguments : Members
deriving Repr, Inhabited

structure Script where
  /-- The rules, each with the number of commands that fitted so far. -/
  rules : List (Rule × Nat)
  /-- The texts of the files that were opened, the latest first. -/
  texts : List (String × String)
  /-- What is left to do, and when. -/
  agenda : List (Nat × List Deed)
  /-- Whether it ends when it is asked to. -/
  obeys : Bool
deriving Repr, Inhabited

namespace Heard

/-- The command on a line. -/
def ofLine? (line : List Char) : Option Heard := do
  match ← read line with
  | .object ms =>
    match lookup "command" ms with
    | some (.string command) =>
      let arguments := match lookup "arguments" ms with
        | some (.object ms) => ms
        | _ => []
      return ⟨(lookup "seq" ms).getD .null, command, arguments⟩
    | _ => none
  | _ => none

variable (h : Heard)

def argument (key : String) : Value := (lookup key h.arguments).getD .null

def text? (key : String) : Option String :=
  match h.argument key with
  | .string s => some s
  | _ => none

def number? (key : String) : Option Nat :=
  match h.argument key with
  | .integer n => if 0 ≤ n then some n.toNat else none
  | _ => none

end Heard

namespace Script

/-- A script that has something to say at once. -/
def new (rules : List Rule) (greeting : String) (obeys : Bool) : Script :=
  ⟨rules.map (·, 0), [], [(0, [.send (bytesOf greeting.toList)])], obeys⟩

variable (s : Script)

/-- The name at the location of a command. -/
def nameOf (h : Heard) : String :=
  match h.text? "file", h.number? "line", h.number? "offset" with
  | some file, some line, some offset =>
    let text := ((s.texts.find? fun t => t.1 == file).map (·.2)).getD ""
    nameAt text.toList ⟨line - 1, offset - 1⟩
  | _, _, _ => ""

/-- Whether a rule fits a command. -/
def fits (h : Heard) (r : Rule) : Bool :=
  r.command == h.command
    && r.file.all (fun f => (h.text? "file").any fun g => f.toList.isSuffixOf g.toList)
    && r.line.all (fun n => h.number? "line" == some n)
    && r.offset.all (fun n => h.number? "offset" == some n)
    && r.name.all fun n => s.nameOf h == n

/-- The first rule that is chosen for a command; the rules before it count the command. -/
def choose (h : Heard) : List (Rule × Nat) → Option Rule × List (Rule × Nat)
  | [] => (none, [])
  | (r, n) :: rs =>
    if s.fits h r then
      if r.nth.all (· == n) then (some r, (r, n + 1) :: rs)
      else
        let (chosen, rs) := choose h rs
        (chosen, (r, n + 1) :: rs)
    else
      let (chosen, rs) := choose h rs
      (chosen, (r, n) :: rs)

/-- What is done where no rule is chosen. -/
def usualReply : String → Reply
  | "quickinfo" => .fail "No content available."
  | "semanticDiagnosticsSync" => .body (.list [])
  | _ => .silence

/-- A response with some members of its own. -/
def response (h : Heard) (command : String) (success : Bool) (own : Members) : List Deed :=
  [.send (frame (.object ([("seq", .integer 0), ("type", .string "response"),
    ("command", .string command), ("request_seq", h.number), ("success", .boolean success)] ++ own)))]

/-- What a reply to a command does. -/
def deeds (h : Heard) (command : String) : Reply → List Deed
  | .close => [.close]
  | .closeInput => [.closeInput]
  | .raw text => [.send (bytesOf (text.replace "$SEQ" (String.ofList h.number.write)).toList)]
  | .display text =>
    let place := Value.object [("line", h.argument "line"), ("offset", h.argument "offset")]
    response h command true [("body", .object [("kind", .string "const"),
      ("displayString", .string (withName text (s.nameOf h))), ("start", place), ("end", place)])]
  | .fail message => response h command false [("message", .string message)]
  | .noBody => response h command true []
  | .body v => response h command true [("body", v)]
  | .silence => []

/-- The script remembers the text of a file that is opened. -/
def remember (h : Heard) : Script :=
  match h.command, h.text? "file", h.text? "fileContent" with
  | "open", some file, some text => { s with texts := (file, text) :: s.texts }
  | _, _, _ => s

def hear (now : Nat) (line : List Char) : Script × List Deed :=
  match Heard.ofLine? line with
  | none => (s, [])
  | some h =>
    let s := s.remember h
    let (chosen, rules) := s.choose h s.rules
    let s := { s with rules }
    let ending := if s.obeys && h.command == "exit" then [Deed.close] else []
    match chosen with
    | none => (s, s.deeds h h.command (usualReply h.command) ++ ending)
    | some r =>
      let deeds := s.deeds h (r.answerTo.getD h.command) r.reply
      if r.delay = 0 then (s, deeds ++ ending)
      else ({ s with agenda := s.agenda ++ [(now + r.delay, deeds)] }, ending)

def act (now : Nat) : Script × List Deed :=
  let (ready, agenda) := s.agenda.partition fun a => a.1 ≤ now
  ({ s with agenda }, (ready.mergeSort fun a b => a.1 ≤ b.1).flatMap (·.2))

def due : Option Nat := (s.agenda.map (·.1)).min?

/-- Scripts as servers. -/
def server : Peer Script := ⟨hear, act, due⟩

end Script

end AnySpans.Server
