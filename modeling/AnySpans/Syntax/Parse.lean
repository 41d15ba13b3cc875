import AnySpans.Grammar.Script
import AnySpans.Syntax.Dialect
import AnySpans.Syntax.Lower
import AnySpans.Vue.Mask

/-!
# Parsing documents

`parse` turns a document into a lowered tree.  A document with an error is refused with the place of
the first flaw.  In a component only an error inside a script block counts: a template expression
that does not parse is given up, and the rest is read again.
-/

namespace AnySpans.Syntax

open AnySpans.Text AnySpans.Vue AnySpans.Parsing AnySpans.Grammar

/-- Why a document has no tree. -/
inductive SyntaxError where
  /-- A component without a script in TypeScript. -/
  | noScript
  /-- The parse could not be brought to an end. -/
  | aborted
  /-- The first flaw stands at a position. -/
  | malformed (at' : Position)
deriving DecidableEq, Repr, Inhabited

/-- The wording of an error. -/
def SyntaxError.message : SyntaxError → String
  | noScript => "no TypeScript script block found"
  | aborted => "parse aborted"
  | malformed p => "syntax error at " ++ toString p.line ++ ":" ++ toString p.character

/-- Reads a text by a parser, which may give no concrete tree; refuses what has a flaw. -/
def readWith (parser : List Char → Option Concrete) (text : List Char) : Reading Concrete :=
  match parser text with
  | none => .aborted
  | some t => if t.heading.flawed then .refused (t.firstFlaw.getD 0) else .accepted t

/-- What reads the scripts of documents into concrete trees. -/
structure Readers where
  /-- Reads plain scripts. -/
  plain : List Char → Reading Concrete
  /-- Reads scripts with markup. -/
  markup : List Char → Reading Concrete

instance : Repr Readers := ⟨fun _ _ => "readers"⟩

/-- The tree of a document, or why it has none. -/
def Readers.parse (readers : Readers) (dialect : Dialect) (text : List Char) :
    Except SyntaxError Tree :=
  let finish : Reading Concrete → Except SyntaxError Tree
    | .accepted t => .ok (lower text t)
    | .refused byte => .error (.malformed ((LineIndex.ofText text).position text byte))
    | .aborted => .error .aborted
  match dialect with
  | .typeScript => finish (readers.plain text)
  | .tsx => finish (readers.markup text)
  | .vue =>
    match scriptBlocks text with
    | [] => .error .noScript
    | s :: ss => finish ((Mask.ofText text (s :: ss)).settle readers.plain)

/-- The language of plain scripts. -/
def plainScript : Language := .ofRules (Script.script .plain)

/-- The language of scripts with markup. -/
def markupScript : Language := .ofRules (Script.script .markup)

/-- Readers by the grammar of scripts. -/
def Readers.standard : Readers :=
  ⟨readWith (readConcrete plainScript), readWith (readConcrete markupScript)⟩

instance : Inhabited Readers := ⟨.standard⟩

/-- The tree of a document by the grammar of scripts. -/
def parse (dialect : Dialect) (text : List Char) : Except SyntaxError Tree :=
  Readers.standard.parse dialect text

end AnySpans.Syntax
