import AnySpans.CommandLine.Bounds

/-!
# Arguments

`Arguments.parse` reads the words of a command line.  A command `check` with its files follows
switches that hold everywhere; switches of its own may stand among the files.  A value stands in the
word after its switch or after an equals sign, and is looked at when the next switch or file comes;
so an unknown switch is reported before a value that does not fit.
-/

namespace AnySpans.CommandLine

open AnySpans.Lines

/-- What a command line asks for. -/
structure Arguments where
  config : Option String
  verbose : Bool
  files : List String
  lines : Option Bounds
  pageSize : Option Nat
  server : Option String
  json : Bool
  surfaceErrors : Bool
deriving DecidableEq, Repr, Inhabited

def Arguments.none : Arguments := ⟨.none, false, [], .none, .none, .none, false, false⟩

/-- Why a command line is not carried out. -/
inductive UsageError where
  | help
  /-- Help is shown because there are no words at all. -/
  | helpForNothing
  | noCommand
  | unknownCommand
  | unknownSwitch
  /-- A switch without the value it needs, or with an empty one. -/
  | noValue
  /-- A value for a switch that takes none. -/
  | needlessValue
  /-- A value that does not fit. -/
  | badValue
  /-- A switch given twice. -/
  | repeated
  | noFile
deriving DecidableEq, Repr, Inhabited

/-- The switches. -/
inductive Switch where
  | config
  | verbose
  | lines
  | pageSize
  | server
  | json
  | surfaceErrors
  | help
deriving DecidableEq, Repr, Inhabited

namespace Switch

/-- Whether a switch needs a value. -/
def takesValue : Switch → Bool
  | config | lines | pageSize | server => true
  | verbose | json | surfaceErrors | help => false

/-- The switch with a long name; some belong to the command only. -/
def ofName? (inCommand : Bool) (name : String) : Option Switch :=
  match name, inCommand with
  | "config", _ => some config
  | "verbose", _ => some verbose
  | "help", _ => some help
  | "lines", true => some lines
  | "page-size", true => some pageSize
  | "tsserver", true => some server
  | "json", true => some json
  | "surface-errors", true => some surfaceErrors
  | _, _ => none

/-- The switch with a letter. -/
def ofLetter? : Char → Option Switch
  | 'v' => some verbose
  | 'h' => some help
  | _ => none

end Switch

/-- Words that wait for being stored: files, or the value of a switch. -/
inductive Waiting where
  | files (paths : List String)
  | value (s : Switch) (text : Option String)
deriving Repr, Inhabited

/-- How far a command line has been read. -/
structure Reading where
  arguments : Arguments
  /-- The switches stored so far. -/
  given : List Switch
  waiting : Option Waiting
deriving Repr, Inhabited

namespace Reading

/-- Nothing has been read. -/
def start : Reading := ⟨.none, [], none⟩

/-- Whether the next word is the value of a switch. -/
def wantsValue (r : Reading) : Bool :=
  match r.waiting with
  | some (.value _ none) => true
  | _ => false

private def path (text : String) : Except UsageError String :=
  if text = "" then .error .noValue else .ok text

/-- Stores a switch with its value. -/
def store (r : Reading) (s : Switch) (text : String) : Except UsageError Reading := do
  if r.given.contains s then throw .repeated
  let a := r.arguments
  let a ← match s with
    | .config => do pure { a with config := some (← path text) }
    | .server => do pure { a with server := some (← path text) }
    | .lines =>
      match Bounds.parse text with
      | .ok b => pure { a with lines := some b }
      | .error _ => throw .badValue
    | .pageSize =>
      match Number.countWithin? limit text.toList with
      | some (n + 1) => pure { a with pageSize := some (n + 1) }
      | _ => throw .badValue
    | .verbose => pure { a with verbose := true }
    | .json => pure { a with json := true }
    | .surfaceErrors => pure { a with surfaceErrors := true }
    | .help => throw .help
  return { r with arguments := a, given := s :: r.given }

/-- Stores the words that wait. -/
def settle (r : Reading) : Except UsageError Reading :=
  let r' := { r with waiting := none }
  match r.waiting with
  | none => .ok r
  | some (.files paths) => do
    let paths ← paths.mapM path
    return { r' with arguments := { r.arguments with files := r.arguments.files ++ paths } }
  | some (.value _ none) => .error .noValue
  | some (.value s (some text)) => r'.store s text

/-- Reads a switch written with its name, perhaps with a value after an equals sign. -/
def long (inCommand : Bool) (r : Reading) (word : List Char) : Except UsageError Reading := do
  let name := word.takeWhile (· != '=')
  match Switch.ofName? inCommand (String.ofList name), word.drop name.length with
  | none, _ => throw .unknownSwitch
  | some s, _ :: text =>
    if s.takesValue then (← r.settle).store s (String.ofList text) else throw .needlessValue
  | some s, [] =>
    let r ← r.settle
    if s.takesValue then return { r with waiting := some (.value s none) } else r.store s ""

/-- Reads letters of switches. -/
def letters (r : Reading) : List Char → Except UsageError Reading
  | [] => .ok r
  | c :: cs =>
    match Switch.ofLetter? c with
    | none => .error .unknownSwitch
    | some s => do letters (← (← r.settle).store s "") cs

/-- Reads a file. -/
def file (r : Reading) (word : String) : Except UsageError Reading :=
  match r.waiting with
  | some (.files paths) => .ok { r with waiting := some (.files (paths ++ [word])) }
  | _ => do return { (← r.settle) with waiting := some (.files [word]) }

/-- Takes a word as the value that is wanted. -/
def value (r : Reading) (word : String) : Reading :=
  match r.waiting with
  | some (.value s none) => { r with waiting := some (.value s (some word)) }
  | _ => r

end Reading

/-- What a word looks like. -/
inductive Word where
  /-- Two dashes: only files follow. -/
  | divider
  | long (text : List Char)
  | letters (text : List Char)
  | plain (text : String)
deriving Repr, Inhabited

def Word.of (word : String) : Word :=
  match word.toList with
  | ['-', '-'] => .divider
  | '-' :: '-' :: cs => .long cs
  | '-' :: c :: cs => .letters (c :: cs)
  | _ => .plain word

/-- Reads the words after the command. -/
def readCommand (r : Reading) : List String → Except UsageError Reading
  | [] => r.settle
  | w :: ws => do
    match Word.of w with
    | .divider => (← ws.foldlM Reading.file r).settle
    | .long cs => readCommand (← r.long true cs) ws
    | .letters cs => readCommand (← r.letters cs) ws
    | .plain w => readCommand (← if r.wantsValue then pure (r.value w) else r.file w) ws

/-- The command and its arguments; those given before the command hold unless given again. -/
def finishCommand (before : Reading) (words : List String) : Except UsageError Arguments := do
  let r ← readCommand .start words
  if r.arguments.files.isEmpty then throw .noFile
  let before ← before.settle
  return { r.arguments with
    config := r.arguments.config.orElse fun _ => before.arguments.config
    verbose := r.arguments.verbose || before.arguments.verbose }

/-- Help is given on commands that exist. -/
def helpOn : List String → UsageError
  | [] | ["check"] | ["help"] => .help
  | _ => .unknownCommand

/-- Reads the words before the command. -/
def readWords (r : Reading) : List String → Except UsageError Arguments
  | [] => do
    let r ← r.settle
    throw (if r.given.isEmpty then .helpForNothing else .noCommand)
  | w :: ws => do
    match Word.of w with
    | .divider =>
      match ws with
      | [] => readWords r []
      | "check" :: _ | "help" :: _ => throw .unknownSwitch
      | _ => throw .unknownCommand
    | .long cs => readWords (← r.long false cs) ws
    | .letters cs => readWords (← r.letters cs) ws
    | .plain w =>
      if r.wantsValue then readWords (r.value w) ws
      else if w = "check" then finishCommand r ws
      else if w = "help" then throw (helpOn ws)
      else throw .unknownCommand
termination_by ws => ws.length

/-- What the words of a command line ask for. -/
def Arguments.parse (words : List String) : Except UsageError Arguments := readWords .start words

end AnySpans.CommandLine
