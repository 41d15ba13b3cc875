import AnySpans.Vue.Script
import AnySpans.Vue.Template

/-!
# Masks

A `Mask` shows a component as one script: `Mask.render` keeps the script blocks, writes each template
expression over its own delimiters as a statement in parentheses, and blanks everything else, line
breaks excepted.  No byte moves, so offsets in the mask are offsets in the document.  `Mask.dropAt`
gives up the expression that is responsible for an error, and `Mask.settle` does so until a reader
accepts the rest.
-/

namespace AnySpans.Vue

open AnySpans.Text

/-- A document with the script blocks and expressions that show. -/
structure Mask where
  text : List Char
  scripts : List Span
  expressions : List Expression
deriving Repr, Inhabited

/-- A character that does not show: a line break stays, anything else becomes blanks. -/
def blank (c : Char) : List Char :=
  if c = '\n' ∨ c = '\r' then [c] else List.replicate c.utf8Size ' '

/-- What an expression writes for the character at a byte of its region. -/
def Expression.write (e : Expression) (byte : Nat) (c : Char) : List Char :=
  if byte = e.region.start then [';']
  else if byte + 1 = e.body.start then ['(']
  else if byte = e.body.stop then [')']
  else if e.terminated ∧ byte + 1 = e.region.stop then [';']
  else if byte ∈ e.body then
    if e.loopWord = some byte then ['i']
    else if e.loopWord.map (· + 1) = some byte then ['n']
    else [c]
  else blank c

namespace Mask

/-- The mask of a document with the given script blocks and all its other expressions. -/
def ofText (text : List Char) (scripts : List Span) : Mask :=
  ⟨text, scripts, (templateExpressions text).filter fun e => !scripts.any e.region.overlaps⟩

variable (m : Mask)

/-- What shows for the character at a byte. -/
def write (byte : Nat) (c : Char) : List Char :=
  if m.scripts.any (byte ∈ ·) then [c]
  else match m.expressions.find? (byte ∈ ·.region) with
    | some e => e.write byte c
    | none => blank c

/-- What shows for a text from a byte on. -/
def renderFrom (byte : Nat) : List Char → List Char
  | [] => []
  | c :: cs => m.write byte c ++ renderFrom (byte + c.utf8Size) cs

/-- The masked document. -/
def render : List Char := m.renderFrom 0 m.text

/-- The place in the list of the expression responsible for an error at a byte: the one whose region
holds it, else the last one that begins before it, else the first. -/
def culprit? (byte : Nat) : Option Nat :=
  match m.expressions.findIdx? (byte ∈ ·.region) with
  | some i => some i
  | none =>
    match (m.expressions.filter fun e => e.region.start ≤ byte).length with
    | 0 => if m.expressions.isEmpty then none else some 0
    | n + 1 => some n

/-- The mask without the expression responsible for an error at a byte; none when the error lies in
a script block or no expression is left. -/
def dropAt (byte : Nat) : Option Mask :=
  if m.scripts.any (byte ∈ ·) then none
  else (m.culprit? byte).map fun i => { m with expressions := m.expressions.eraseIdx i }

theorem culprit?_lt {byte i : Nat} (h : m.culprit? byte = some i) : i < m.expressions.length := by
  unfold culprit? at h
  split at h
  · rename_i j hj
    cases h
    exact (List.findIdx?_eq_some_iff_findIdx_eq.1 hj).1
  · have := List.length_filter_le (fun e => decide (e.region.start ≤ byte)) m.expressions
    split at h
    · split at h
      · cases h
      · rename_i hne
        cases h
        exact List.length_pos_iff.2 fun he => hne (by simp [he])
    · cases h
      omega

theorem length_dropAt {byte : Nat} {m' : Mask} (h : m.dropAt byte = some m') :
    m'.expressions.length + 1 = m.expressions.length := by
  unfold dropAt at h
  split at h
  · cases h
  · obtain ⟨i, hi, rfl⟩ := Option.map_eq_some_iff.1 h
    have := m.culprit?_lt hi
    simp only [List.length_eraseIdx]
    split <;> omega

end Mask

/-- What a reader makes of a text. -/
inductive Reading (α : Type) where
  | accepted (result : α)
  /-- The text is refused because of what stands at a byte. -/
  | refused (byte : Nat)
  /-- The reader gave up. -/
  | aborted
deriving Repr

/-- Reads a masked document, giving up expressions one by one until it is accepted or the error is
not one of an expression. -/
def Mask.settle {α : Type} (read : List Char → Reading α) (m : Mask) : Reading α :=
  match read m.render with
  | .refused byte =>
    match _h : m.dropAt byte with
    | some m' => settle read m'
    | none => .refused byte
  | r => r
termination_by m.expressions.length
decreasing_by
  have := m.length_dropAt _h
  omega

end AnySpans.Vue
