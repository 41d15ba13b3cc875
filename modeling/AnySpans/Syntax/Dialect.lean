import AnySpans.Files.Path
import AnySpans.Vue.Script

/-!
# Dialects

The dialects of documents that can be analysed, and how a document's dialect follows from its
language id or its path.  A component counts as one only if it has a script in TypeScript.
-/

namespace AnySpans.Syntax

open AnySpans.Files AnySpans.Vue

/-- A way of writing documents. -/
inductive Dialect where
  | typeScript
  /-- TypeScript with markup. -/
  | tsx
  /-- A single-file component. -/
  | vue
deriving DecidableEq, Repr, Inhabited

namespace Dialect

def name : Dialect → String
  | typeScript => "typescript"
  | tsx => "tsx"
  | vue => "vue"

/-- The dialect of a document with the given language id. -/
def detect (language : String) (text : List Char) : Option Dialect :=
  match language with
  | "typescript" => some typeScript
  | "typescriptreact" => some tsx
  | "vue" => if (scriptBlocks text).isEmpty then none else some vue
  | _ => none

end Dialect

/-- The language id of a path. -/
def languageOfPath (path : String) : Option String :=
  match extension? path with
  | some "ts" | some "mts" | some "cts" => some "typescript"
  | some "tsx" => some "typescriptreact"
  | some "vue" => some "vue"
  | _ => none

end AnySpans.Syntax
