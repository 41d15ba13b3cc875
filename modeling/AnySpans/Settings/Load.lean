import AnySpans.Files.Store
import AnySpans.Settings.Config

/-!
# Loading settings

Settings come from a file that is named, or from the usual place if there is a file.
-/

namespace AnySpans.Settings

open AnySpans.Files

/-- Why a file gives no settings. -/
inductive LoadError where
  | unreadable (path : String) (e : FileError)
  | refused (e : ConfigError)
deriving Repr, Inhabited

/-- The wording of an error; what is wrong with a file's text is told twice, by the error and by its
cause. -/
def LoadError.message : LoadError → String
  | unreadable path e => "I/O error reading " ++ path ++ ": " ++ e.message
  | refused e => "TOML parse error: " ++ e.report ++ ": " ++ e.report

/-- The settings in a file; its path starts at a directory unless it is absolute. -/
def Config.load (s : Store) (directory path : String) : Except LoadError Loaded :=
  match s.read (join directory path) with
  | .error e => .error (.unreadable path e)
  | .ok text => (Config.parse text.toList).mapError .refused

/-- Where settings are looked for in the directory of all programs' settings. -/
def usualPlace (directory : String) : String := join directory "xray/config.toml"

end AnySpans.Settings
