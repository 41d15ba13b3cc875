import AnySpans.Check.Run

/-!
# The command line

`main` looks up in the file system what a command line names, carries it out, and prints what comes
of it.  A type server is a process of its own and is not within reach from here: a program that is
found for it counts as one that has ended.
-/

namespace AnySpans

open AnySpans.Check AnySpans.CommandLine AnySpans.Files AnySpans.Server

/-- A server that has ended. -/
def endedServer : Peer Unit := ⟨fun _ _ _ => ((), []), fun _ _ => ((), [.close]), fun _ => none⟩

/-- How many steps a program may take between two moments at which it waits. -/
def patience : Nat := 1000000

/-- What stands at a path; a file becomes the entry that its content is turned into. -/
def lookUp (path : String) (entry : List UInt8 → Entry) : IO (Option Entry) := do
  try
    return some (entry (← IO.FS.readBinFile path).toList)
  catch
    | .noFileOrDirectory .. => return none
    | .permissionDenied .. => return none
    | _ => return some .directory

/-- Adds what stands at a path to a store. -/
def addFound (entry : List UInt8 → Entry) (s : Store) (path : String) : IO Store := do
  match ← lookUp path entry with
  | some e => return s.add path e
  | none => return s

/-- What a command line can come upon. -/
def surroundings (a : Arguments) : IO Surroundings := do
  let directory := (← IO.currentDir).toString
  let home := (← IO.getEnv "HOME").getD ""
  let settings := ((← IO.getEnv "XDG_CONFIG_HOME").filter fun d => d.toList.head? = some '/').getD
    (join home ".config")
  let path := ((← IO.getEnv "PATH").getD "").splitOn ":"
  let texts := Settings.usualPlace settings :: (a.config.toList ++ a.files).map (join directory)
  let near := (ancestors directory).map fun d => join (join d localPrograms) programName
  let programs := near ++ path.flatMap fun d => (programName :: a.server.toList).map (join d)
  let named := a.server.toList.map (join directory)
  let s := Store.empty.add directory .directory
  let s ← texts.foldlM (addFound fun content => .file content false) s
  let s ← (programs ++ named).foldlM (addFound fun _ => .server) s
  return ⟨s, directory, settings, path⟩

end AnySpans

open AnySpans AnySpans.Check AnySpans.CommandLine in
/-- Runs the program. -/
def main (words : List String) : IO UInt32 := do
  let place ← match Arguments.parse words with
    | .ok a => surroundings a
    | .error _ => pure default
  let e := run place endedServer () patience words
  IO.print e.output
  unless e.message.isEmpty do IO.eprintln e.message
  return e.code.toUInt32
