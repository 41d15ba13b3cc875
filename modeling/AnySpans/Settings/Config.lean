import AnySpans.Settings.Style
import AnySpans.Toml.Flaw

/-!
# Settings

`Config.parse` reads settings from a text.  Every key is optional.  A text that is not well formed and
a known key with a value that does not fit are errors; an unknown key and a refused style are only
warned about, and the built-in style is used for the latter.  Keys are looked at in ascending order,
so of several errors the one of the least key is reported; values that cannot even be stored under
unknown keys come last.
-/

namespace AnySpans.Settings

open AnySpans.Toml AnySpans.Decoding

/-- The settings of an analysis; times are in milliseconds. -/
structure Config where
  /-- The quiet period before a pass runs. -/
  debounce : Nat
  /-- Whether ranges that touch a compiler error are shown. -/
  surfaceErrors : Bool
  /-- How many questions of one pass may be open at a time. -/
  maxQueries : Nat
  /-- How long to wait for an answer. -/
  queryTimeout : Nat
  style : Style
deriving DecidableEq, Repr, Inhabited

/-- The settings that hold without a file. -/
def Config.builtIn : Config := ⟨250, false, 32, 2000, .builtIn⟩

/-- Something wrong with a settings file that does not keep it from being used. -/
inductive Warning where
  | unknownKey (key : String)
  | invalidStyle (fault : StyleFault)
deriving Repr, Inhabited

def Warning.message : Warning → String
  | unknownKey key => "unknown configuration key '" ++ key ++ "' ignored"
  | invalidStyle fault => "invalid any-style (" ++ fault.message ++ "); falling back to default"

/-- Settings with the warnings about their file. -/
structure Loaded where
  config : Config
  warnings : List Warning
deriving Repr, Inhabited

/-- Why a text gives no settings. -/
inductive ConfigError where
  /-- The text is no settings file. -/
  | malformed (f : Flaw) (place : Excerpt)
  /-- A value does not fit. -/
  | mismatch (m : Mismatch) (place : Excerpt)
deriving Repr, Inhabited

/-- The report of an error: where it is, and what it is. -/
def ConfigError.report : ConfigError → String
  | malformed f place => place.report f.message
  | mismatch m place => place.report m.message

/-- A value that does not fit, with its key if it can be told. -/
structure Misfit where
  key : Option String
  mismatch : Mismatch
deriving Repr, Inhabited

/-! ### Single values -/

/-- An integer as messages show it, by the width it takes. -/
def shownInteger (n : Int) : Except Mismatch Found :=
  if -Int.pow 2 63 ≤ n ∧ n < Int.pow 2 64 then .ok (.integer n)
  else if -Int.pow 2 127 ≤ n ∧ n < Int.pow 2 127 then .ok (.wide n "i128")
  else if 0 ≤ n ∧ n < Int.pow 2 128 then .ok (.wide n "u128")
  else .error .overflow

/-- A value as messages about a file's values show it; a moment is a kind of map there. -/
def shown : Value → Except Mismatch Found
  | .integer n => shownInteger n
  | .moment _ => .ok .map
  | v => .ok (shownValue v)

/-- Refuses a value of a wrong type, shown as messages show it. -/
def misfit {α : Type} (v : Value) (expected : String) : Except Mismatch α :=
  match shown v with
  | .ok found => .error (.type found expected)
  | .error m => .error m

/-- A count of at most 64 bits. -/
def readCount (expected : String) : Value → Except Mismatch Nat
  | .integer n =>
    if 0 ≤ n ∧ n < Int.pow 2 64 then .ok n.toNat
    else if n < 0 ∧ -Int.pow 2 63 ≤ n then .error (.value (.integer n) expected)
    else misfit (.integer n) expected
  | v => misfit v expected

def readBoolean : Value → Except Mismatch Bool
  | .boolean b => .ok b
  | v => misfit v "a boolean"

mutual

/-- Checks that all integers of a value have at most 64 bits and, when stored, a sign bit among
them. -/
def checkIntegers (stored : Bool) : Value → Except Mismatch Unit
  | .integer n =>
    if -Int.pow 2 63 ≤ n ∧ n < Int.pow 2 64 then
      if stored && Int.pow 2 63 ≤ n then .error .tooLarge else .ok ()
    else misfit (.integer n) (if stored then "any valid TOML value" else "any value")
  | .list _ vs => checkAll stored vs
  | .table _ es => checkEntries stored es
  | _ => .ok ()

/-- Checks the integers of all items of a list. -/
def checkAll (stored : Bool) : List Value → Except Mismatch Unit
  | [] => .ok ()
  | v :: vs => do
    checkIntegers stored v
    checkAll stored vs

/-- Checks the integers of all values of a table. -/
def checkEntries (stored : Bool) : List (String × Value) → Except Mismatch Unit
  | [] => .ok ()
  | (_, v) :: es => do
    checkIntegers stored v
    checkEntries stored es

end

/-! ### All keys -/

/-- The values of the known keys, as far as they are given, and the unknown keys. -/
structure Raw where
  debounce : Option Nat := none
  surfaceErrors : Option Bool := none
  maxQueries : Option Nat := none
  queryTimeout : Option Nat := none
  style : Option Value := none
  unknown : Entries := []

/-- Takes in the value of one key. -/
def readEntry (r : Raw) (key : String) (v : Value) : Except Mismatch Raw := do
  match key with
  | "debounce-ms" => return { r with debounce := some (← readCount "u64" v) }
  | "surface-error-anys" => return { r with surfaceErrors := some (← readBoolean v) }
  | "max-concurrent-queries" => return { r with maxQueries := some (← readCount "usize" v) }
  | "query-timeout-ms" => return { r with queryTimeout := some (← readCount "u64" v) }
  | "any-style" =>
    checkIntegers true v
    return { r with style := some v }
  | _ =>
    checkIntegers false v
    return { r with unknown := r.unknown ++ [(key, v)] }

/-- Takes in the values of keys one after another. -/
def readEntries (r : Raw) : Entries → Except Misfit Raw
  | [] => .ok r
  | (key, v) :: es => do readEntries (← (readEntry r key v).mapError (⟨some key, ·⟩)) es

/-- The settings by the values that are given, and the built-in ones for the rest. -/
def finish (r : Raw) : Loaded :=
  let d := Config.builtIn
  let (style, refused) := match r.style with
    | none => (d.style, [])
    | some v =>
      match Style.read v with
      | .ok s => (s, [])
      | .error fault => (Style.builtIn, [Warning.invalidStyle fault])
  { config :=
      { debounce := r.debounce.getD d.debounce
        surfaceErrors := r.surfaceErrors.getD d.surfaceErrors
        maxQueries := max (r.maxQueries.getD d.maxQueries) 1
        queryTimeout := r.queryTimeout.getD d.queryTimeout
        style }
    warnings := r.unknown.map (fun e => Warning.unknownKey e.1) ++ refused }

/-- The settings in a table. -/
def Config.ofEntries (es : Entries) : Except Misfit Loaded := do
  let r ← readEntries {} (sortedEntries es)
  (checkEntries true r.unknown).mapError (⟨none, ·⟩)
  return finish r

/-- Where a value that does not fit stands; without its key that is the whole text. -/
def Misfit.excerpt (text : List Char) (m : Misfit) : Excerpt :=
  ((m.key.bind (Extent.ofKey text)).getD ⟨0, text⟩).excerpt text

/-- The settings a text describes. -/
def Config.parse (text : List Char) : Except ConfigError Loaded :=
  match Toml.read text with
  | none =>
    let (f, e) := Flaw.find text
    .error (.malformed f (e.excerpt text))
  | some es =>
    match Config.ofEntries es with
    | .ok l => .ok l
    | .error m => .error (.mismatch m.mismatch (m.excerpt text))

end AnySpans.Settings
