import AnySpans.Text.Lines
import AnySpans.Text.Word

/-!
# Signatures in hover texts

A host that talks to a language server gets signatures as hover texts.  `Hover.signature` takes the
first code block of a marked-up text, or its first paragraph if there is none; the documentation
after it is dropped.
-/

namespace AnySpans.Signature

open AnySpans.Text

/-- A piece of hover text: a marked-up text, or code in a language. -/
inductive Marked where
  | text (s : String)
  | code (language value : String)
deriving DecidableEq, Repr, Inhabited

/-- The contents of a hover. -/
inductive Hover where
  | one (m : Marked)
  | several (ms : List Marked)
  | markup (value : String)
deriving DecidableEq, Repr, Inhabited

/-- A text, if it is not empty. -/
def nonEmpty (cs : List Char) : Option String :=
  if cs = [] then none else some (String.ofList cs)

/-- Whether a line opens or closes a code block. -/
def isFence (line : List Char) : Bool :=
  ['\x60', '\x60', '\x60'].isPrefixOf (line.dropWhile isSpace)

/-- The lines of the first code block. -/
def codeBlock? (lines : List (List Char)) : Option (List (List Char)) :=
  match lines.dropWhile (!isFence ·) with
  | [] => none
  | _ :: rest => some (rest.takeWhile (!isFence ·))

/-- The signature in a marked-up text. -/
def markupSignature (text : String) : Option String :=
  match codeBlock? (splitLines text.toList) with
  | some lines => nonEmpty (trim (joinLines lines))
  | none => nonEmpty (trim (firstParagraph text.toList))

/-- The signature in a piece of hover text. -/
def Marked.signature : Marked → Option String
  | text s => markupSignature s
  | code _ value => nonEmpty (trim value.toList)

/-- The signature in a hover, if it has one. -/
def Hover.signature : Hover → Option String
  | one m => m.signature
  | several ms => ms.findSome? Marked.signature
  | markup value => markupSignature value

end AnySpans.Signature
