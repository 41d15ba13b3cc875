/-!
# Paths

A `Path` is the text of a file's place; slashes divide its parts.  Repeated slashes, a slash at the
end and single dots other than a leading one do not matter: `Path.parts` leaves them out, and two
paths with the same parts name the same file.
-/

namespace AnySpans.Files

/-- A part of a path. -/
inductive Part where
  | root
  | here
  | parent
  | name (s : String)
deriving DecidableEq, Repr, Inhabited

/-- The pieces of a text between slashes. -/
def pieces : List Char → List (List Char)
  | [] => [[]]
  | c :: cs =>
    if c = '/' then [] :: pieces cs
    else match pieces cs with
      | p :: ps => (c :: p) :: ps
      | [] => [[c]]

/-- The part a piece stands for; empty pieces and single dots stand for none. -/
def Part.ofPiece (p : List Char) : Option Part :=
  if p = [] ∨ p = ['.'] then none
  else if p = ['.', '.'] then some .parent
  else some (.name (String.ofList p))

/-- The parts of a path. -/
def parts (path : String) : List Part :=
  match pieces path.toList with
  | [] => []
  | p :: ps =>
    let rest := ps.filterMap Part.ofPiece
    if p = [] then (if ps = [] then [] else .root :: rest)
    else if p = ['.'] then .here :: rest
    else match Part.ofPiece p with
      | some q => q :: rest
      | none => rest

/-- The last part of a path, when it is a name. -/
def fileName? (path : String) : Option String :=
  match (parts path).getLast? with
  | some (.name s) => some s
  | _ => none

/-- What follows the last dot of a path's last name, unless that dot begins the name. -/
def extension? (path : String) : Option String := do
  let name := (← fileName? path).toList
  let after := (name.reverse.takeWhile (· != '.')).reverse
  let before := name.length - after.length
  if before ≤ 1 then none else return String.ofList after

/-- A path below a directory; an absolute one replaces it. -/
def join (directory path : String) : String :=
  if path.toList.head? = some '/' then path
  else if directory = "" ∨ directory.toList.getLast? = some '/' then directory ++ path
  else directory ++ "/" ++ path

/-- The text of a part below others. -/
def Part.text : Part → Option String
  | .name s => some s
  | .parent => some ".."
  | .root | .here => none

/-- The absolute path for one that starts at a directory, without repeated slashes and single dots;
two slashes at its start and one at its end stay. -/
def absolute (directory path : String) : String :=
  let base := match path.toList with
    | '/' :: '/' :: '/' :: _ => ""
    | '/' :: '/' :: _ => "/"
    | '/' :: _ => ""
    | _ => if directory = "/" then "" else directory
  let names := (parts path).filterMap Part.text
  let joined := String.join (base :: names.map ("/" ++ ·))
  if names = [] then (if joined = "" then "/" else joined)
  else if path.toList.getLast? = some '/' then joined ++ "/" else joined

/-! ### Directories above a path -/

/-- A reversed path without the slashes and single dots at its end. -/
def dropSlashes : List Char → List Char
  | '/' :: cs => if cs = [] then ['/'] else dropSlashes cs
  | '.' :: '/' :: cs => if cs = [] then ['/'] else dropSlashes cs
  | cs => cs

/-- The directory a path stands in; none for the root and for an empty path. -/
def parent? (path : String) : Option String :=
  match dropSlashes path.toList.reverse with
  | [] | ['/'] => none
  | cs => some (String.ofList (dropSlashes (cs.dropWhile (· != '/'))).reverse)

/-- The directories above a path, nearest first; `count` bounds their number. -/
def directoriesAbove : (count : Nat) → String → List String
  | 0, _ => []
  | count + 1, path =>
    match parent? path with
    | none => []
    | some p => p :: directoriesAbove count p

/-- A path and the directories above it. -/
def ancestors (path : String) : List String := path :: directoriesAbove path.length path

end AnySpans.Files
