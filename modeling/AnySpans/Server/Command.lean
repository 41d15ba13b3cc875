import AnySpans.Json.Writer
import AnySpans.Server.Location

/-!
# Commands to the type server

A `Command` is a name with arguments.  It is sent as a request on one line of its own, with a
sequence number; responses refer to that number.
-/

namespace AnySpans.Server

open AnySpans.Json AnySpans.Text

/-- A command; `null` stands for no arguments. -/
structure Command where
  name : String
  arguments : Value
deriving Inhabited, Repr

namespace Command

/-- Opens a file with a text, in place of what the server had. -/
def openFile (file text : String) (scriptKind : Option String) : Command :=
  ⟨"open", .object ([("file", .string file), ("fileContent", .string text)]
    ++ (scriptKind.map fun k => ("scriptKindName", Value.string k)).toList)⟩

def closeFile (file : String) : Command := ⟨"close", .object [("file", .string file)]⟩

/-- Asks about an identifier. -/
def quickInfo (file : String) (at' : Location) : Command :=
  ⟨"quickinfo", .object [("file", .string file), ("line", .integer at'.line),
    ("offset", .integer at'.offset)]⟩

/-- Asks for the compiler's remarks on a file. -/
def remarks (file : String) : Command :=
  ⟨"semanticDiagnosticsSync", .object [("file", .string file)]⟩

/-- Asks the server to end. -/
def exit : Command := ⟨"exit", .null⟩

/-- The request that carries a command. -/
def request (c : Command) (number : Nat) : Value :=
  .object ([("seq", .integer number), ("type", .string "request"), ("command", .string c.name)]
    ++ match c.arguments with
      | .null => []
      | arguments => [("arguments", arguments.sorted)])

/-- The line of the request, without its line feed. -/
def line (c : Command) (number : Nat) : List Char := (c.request number).write

end Command

end AnySpans.Server
