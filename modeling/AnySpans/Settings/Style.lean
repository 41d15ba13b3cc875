import AnySpans.Decoding.Mismatch
import AnySpans.Text.Word
import AnySpans.Toml.Value

/-!
# Decoration styles

A `Style` says how the ranges of type `any` are shown.  `Style.read` takes one from a settings value;
a style must be a table of known properties, at least one of them given and none blank.
-/

namespace AnySpans.Settings

open AnySpans.Toml AnySpans.Decoding AnySpans.Text

/-- How ranges are shown. -/
structure Style where
  backgroundColor : Option String
  borderRadius : Option String
  border : Option String
  color : Option String
deriving DecidableEq, Repr, Inhabited

namespace Style

/-- A style without properties. -/
def bare : Style := ⟨none, none, none, none⟩

/-- The built-in style. -/
def builtIn : Style :=
  ⟨some "rgba(255,0,0,0.1)", some "3px", some "solid 1px rgba(255,0,0)", some "red"⟩

/-- The names of the properties. -/
def names : List String := ["background-color", "border-radius", "border", "color"]

variable (s : Style)

/-- The properties with their names, in the order they are checked. -/
def properties : List (String × Option String) :=
  names.zip [s.backgroundColor, s.borderRadius, s.border, s.color]

/-- The style with a property set; none for an unknown name. -/
def set (name value : String) : Option Style :=
  match name with
  | "background-color" => some { s with backgroundColor := some value }
  | "border-radius" => some { s with borderRadius := some value }
  | "border" => some { s with border := some value }
  | "color" => some { s with color := some value }
  | _ => none

end Style

/-- Why a style is refused. -/
inductive StyleFault where
  | notTable (typeName : String)
  | mismatch (m : Mismatch)
  | noProperty
  | blank (name : String)
deriving Repr, Inhabited

def StyleFault.message : StyleFault → String
  | notTable t => "expected a table, found " ++ t
  | mismatch m => m.message
  | noProperty => "no style properties set"
  | blank name => "'" ++ name ++ "' is empty"

/-- A value as a message about a stored value shows it. -/
def shownValue : Value → Found
  | .string s => .string s
  | .integer n => .integer n
  | .real (.finite d) => .real d.positional
  | .real (.infinite negative) => .infinite negative
  | .real .notNumber => .notNumber
  | .boolean b => .boolean b
  | .moment m => .string m.text
  | .list _ _ => .list
  | .table _ _ => .map

/-- The text of a property's value; a moment counts as its text. -/
def propertyText : Value → Except Mismatch String
  | .string s => .ok s
  | .moment m => .ok m.text
  | v => .error (.type (shownValue v) "a string")

/-- Entries in ascending order of their keys. -/
def sortedEntries (es : Entries) : Entries := es.mergeSort fun a b => a.1 ≤ b.1

/-- Takes in the properties of a style one after another. -/
def readProperties (s : Style) : Entries → Except Mismatch Style
  | [] => .ok s
  | (name, v) :: es =>
    if Style.names.contains name then do
      let text ← propertyText v
      readProperties ((s.set name text).getD s) es
    else .error (.unknownField name Style.names)

/-- The check of a style's properties. -/
def Style.check (s : Style) : Except StyleFault Style :=
  if s.properties.all fun p => p.2.isNone then .error .noProperty
  else match s.properties.find? fun p => p.2.any fun t => hasNoText t.toList with
    | some (name, _) => .error (.blank name)
    | none => .ok s

/-- The style a settings value describes. -/
def Style.read : Value → Except StyleFault Style
  | .table _ es =>
    match readProperties .bare (sortedEntries es) with
    | .ok s => s.check
    | .error m => .error (.mismatch m)
  | v => .error (.notTable v.typeName)

end AnySpans.Settings
