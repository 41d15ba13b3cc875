import AnySpans.Check.File
import AnySpans.Server.Discovery
import AnySpans.Settings.Load

/-!
# The program

`run` carries out a command line: it loads the settings, starts the type server, checks one file
after another and reports what was found.  A file that cannot be checked does not keep the others
from being checked.
-/

namespace AnySpans.Check

open AnySpans.CommandLine AnySpans.Files AnySpans.Report AnySpans.Server AnySpans.Settings

/-- What a program leaves. -/
structure Exit where
  code : Nat
  output : String
  /-- The message about an error that kept it from working. -/
  message : String
deriving DecidableEq, Repr, Inhabited

/-- Why files cannot be checked at all. -/
inductive SetupError where
  | settings (path : String) (e : LoadError)
  | noServer (root : String)
  | notStarted (command : String) (e : FileError)
deriving Repr, Inhabited

/-- The wording of an error. -/
def SetupError.message : SetupError → String
  | settings path e => "loading " ++ path ++ ": " ++ e.message
  | noServer root => notFoundMessage root
  | notStarted command e => "failed to spawn " ++ command ++ ": " ++ e.message

variable (place : Surroundings)

/-- The settings that hold for a command line. -/
def settingsFor (a : Arguments) : Except SetupError Config := do
  let usual := usualPlace place.settings
  let c ← match a.config with
    | some path => load path
    | none => if place.store.isFile usual then load usual else pure .builtIn
  return if a.surfaceErrors then { c with surfaceErrors := true } else c
where
  load (path : String) : Except SetupError Config :=
    ((Config.load place.store place.directory path).map Loaded.config).mapError (.settings path)

/-- How the type server is run. -/
def launchFor (a : Arguments) : Except SetupError Launch :=
  match a.server with
  | some command => .ok (.usual command place.directory)
  | none =>
    match discover place.store place.path place.directory with
    | some l => .ok l
    | none => .error (.noServer place.directory)

/-- The passes at the beginning of a program; a program that is no server says nothing. -/
def begin' {π : Type} (peer : π) (a : Arguments) : Except SetupError (Running π) := do
  let c ← settingsFor place a
  let l ← launchFor place a
  let started ← (start place.store place.path l).mapError (.notStarted l.command)
  let s : Running π := Running.start c peer l.timeout
  return match started with
    | .server => s
    | .other => Running.withExchange s (s.source.exchange.doDeed .close)

/-- Checks files; what was found in all of them, and whether one of them could not be checked. -/
def checkFiles {π : Type} (p : Peer π) (fuel : Nat) (a : Arguments) :
    List String → Running π → List Finding × Bool
  | [], _ => ([], false)
  | file :: files, s =>
    match checkFile p fuel place a s file with
    | (s, .ok found) =>
      let (more, failed) := checkFiles p fuel a files s
      (found ++ more, failed)
    | (s, .error _) => ((checkFiles p fuel a files s).1, true)

/-- Carries out arguments with a type server. -/
def check {π : Type} (p : Peer π) (peer : π) (fuel : Nat) (a : Arguments) : Exit :=
  match begin' place peer a with
  | .error e => ⟨2, "", "xray: " ++ e.message⟩
  | .ok s =>
    let (found, failed) := checkFiles place p fuel a a.files s
    ⟨if failed || !found.isEmpty then 1 else 0, (if a.json then reportJson else reportText) found, ""⟩

/-- Carries out a command line with a type server. -/
def run {π : Type} (p : Peer π) (peer : π) (fuel : Nat) (words : List String) : Exit :=
  match Arguments.parse words with
  | .ok a => check place p peer fuel a
  | .error .help => ⟨0, "", ""⟩
  | .error _ => ⟨2, "", ""⟩

end AnySpans.Check
