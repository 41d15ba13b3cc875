import AnySpans.Files.Store

/-!
# Finding the type server

The type server's program belongs to a project or stands in one of the directories where programs
are looked for.  `discover` takes the one nearest to the project's root.
-/

namespace AnySpans.Server

open AnySpans.Files

/-- How the type server is run; the time to wait for an answer is in milliseconds. -/
structure Launch where
  command : String
  arguments : List String
  /-- The directory it runs in. -/
  root : String
  timeout : Nat
deriving DecidableEq, Repr, Inhabited

/-- The usual way to run a program. -/
def Launch.usual (command root : String) : Launch :=
  ⟨command, ["--disableAutomaticTypingAcquisition"], root, 30000⟩

/-- The directory of a project's own programs. -/
def localPrograms : String := "node_modules/.bin"

/-- The name of the type server's program. -/
def programName : String := "tsserver"

/-- The type server of the project at `root`; `path` are the directories of programs. -/
def discover (s : Store) (path : List String) (root : String) : Option Launch :=
  let own := (ancestors root).map fun d => join (join d localPrograms) programName
  let common := path.map fun d => join d programName
  ((own.find? s.isFile).orElse fun _ => common.find? s.isExecutable).map fun command =>
    .usual command root

/-- The message that there is no type server for a project. -/
def notFoundMessage (root : String) : String :=
  "tsserver not found (looked in " ++ join root localPrograms ++ " and on PATH)"

/-- What running a program comes to. -/
inductive Started where
  | server
  /-- A program that ends without a word. -/
  | other
deriving DecidableEq, Repr, Inhabited

/-- Runs a file. -/
def startFile (s : Store) (path : String) : Except FileError Started :=
  match s.find path with
  | .error e => .error e
  | .ok .directory => .error .denied
  | .ok .server => .ok .server
  | .ok (.file content executable) =>
    if !executable then .error .denied
    else if content.take 2 == "#!".toUTF8.toList then .ok .other
    else .error .notProgram

/-- Runs a command; a name without a slash is looked for in the directories of programs. -/
def start (s : Store) (path : List String) (l : Launch) : Except FileError Started :=
  if l.command.toList.contains '/' then startFile s (join l.root l.command)
  else
    let results := path.map fun d => startFile s (join d l.command)
    match results.find? fun r => r.toBool with
    | some r => r
    | none => .error (if results.any fun r => r matches .error .denied then .denied else .missing)

end AnySpans.Server
