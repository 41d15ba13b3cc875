import AnySpans.Files.Path

/-!
# Stored files

A `Store` is a tree of directories and files as it is found at one moment.  Paths in it are absolute;
a path is followed part by part, and every part but the last must be a directory.
-/

namespace AnySpans.Files

/-- What stands at a place. -/
inductive Entry where
  | directory
  | file (content : List UInt8) (executable : Bool)
  /-- A program that serves types when it is run. -/
  | server
deriving DecidableEq, Repr, Inhabited

/-- Why a file cannot be used. -/
inductive FileError where
  | missing
  | directory
  | notDirectory
  | notText
  | denied
  | notProgram
deriving DecidableEq, Repr, Inhabited

/-- The wording of an error. -/
def FileError.message : FileError → String
  | missing => "No such file or directory (os error 2)"
  | directory => "Is a directory (os error 21)"
  | notDirectory => "Not a directory (os error 20)"
  | notText => "stream did not contain valid UTF-8"
  | denied => "Permission denied (os error 13)"
  | notProgram => "Exec format error (os error 8)"

/-- Places with what stands there. -/
structure Store where
  entries : List (List Part × Entry)
deriving Repr, Inhabited

namespace Store

/-- The store with the root directory only. -/
def empty : Store := ⟨[([.root], .directory)]⟩

variable (s : Store)

/-- What stands at a place given by its parts. -/
def at? (place : List Part) : Option Entry := (s.entries.find? fun e => e.1 == place).map (·.2)

/-- Puts an entry at a place instead of what was there. -/
def put (place : List Part) (e : Entry) : Store :=
  ⟨(place, e) :: s.entries.filter fun old => old.1 != place⟩

/-- Makes the directories on the way to a place. -/
def makeParents (place : List Part) : Store :=
  (List.range place.length).foldl
    (fun s n => if (s.at? (place.take n)).isSome then s else s.put (place.take n) .directory) s

/-- Adds an entry and the directories on the way to it. -/
def add (path : String) (e : Entry) : Store :=
  let place := parts path
  (s.makeParents place).put place e

/-- Follows parts from a directory; `place` is where they start. -/
def follow (place : List Part) : List Part → Except FileError Entry
  | [] =>
    match s.at? place with
    | some e => .ok e
    | none => .error .missing
  | p :: ps =>
    match s.at? place with
    | none => .error .missing
    | some .directory =>
      if p = .parent then follow (if place.length ≤ 1 then place else place.dropLast) ps
      else follow (place ++ [p]) ps
    | some _ => .error .notDirectory

/-- Whether a path can only name a directory. -/
def namesDirectory (path : String) : Bool :=
  match (pieces path.toList).getLast? with
  | some p => p == [] || p == ['.']
  | none => false

/-- What an absolute path leads to. -/
def find (path : String) : Except FileError Entry := do
  let e ← match parts path with
    | .root :: ps => s.follow [.root] ps
    | _ => .error .missing
  if namesDirectory path ∧ e ≠ .directory then .error .notDirectory else return e

def isFile (path : String) : Bool :=
  match s.find path with
  | .ok .directory | .error _ => false
  | .ok _ => true

def isExecutable (path : String) : Bool :=
  match s.find path with
  | .ok (.file _ executable) => executable
  | .ok .server => true
  | _ => false

/-- The text of a file. -/
def read (path : String) : Except FileError String := do
  match ← s.find path with
  | .directory => .error .directory
  | .file content _ =>
    match String.fromUTF8? ⟨content.toArray⟩ with
    | some text => return text
    | none => .error .notText
  | .server => .error .notText

end Store

end AnySpans.Files
