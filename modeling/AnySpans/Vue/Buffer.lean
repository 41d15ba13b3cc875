import AnySpans.Vue.Mask

/-!
# Masks written in place

A `Buffer` is a mask as the bytes it is made of.  They are written in place: first the script blocks,
then each expression over its own delimiters; an expression that is given up is blanked again.  An
access to bytes outside of the buffer has no result.
-/

namespace AnySpans.Vue

open AnySpans.Text

/-- The bytes of a text. -/
def utf8 (text : List Char) : List UInt8 := text.flatMap String.utf8EncodeChar

/-- What shows of a byte that does not show: a line break stays. -/
def blankByte (b : UInt8) : UInt8 :=
  if b = '\n'.toUInt8 ∨ b = '\r'.toUInt8 then b else ' '.toUInt8

/-! ### Access to bytes -/

/-- The bytes of a span. -/
def slice? (bytes : List UInt8) (s : Span) : Option (List UInt8) :=
  if s.start ≤ s.stop ∧ s.stop ≤ bytes.length then
    some ((bytes.drop s.start).take (s.stop - s.start))
  else none

/-- Writes as many bytes as there are in a span over them. -/
def overwrite? (bytes : List UInt8) (s : Span) (new : List UInt8) : Option (List UInt8) := do
  let old ← slice? bytes s
  if old.length = new.length then some (bytes.take s.start ++ new ++ bytes.drop s.stop) else none

/-- Writes the byte at an offset. -/
def put? (bytes : List UInt8) (i : Nat) (b : UInt8) : Option (List UInt8) :=
  if i < bytes.length then some (bytes.set i b) else none

/-- Writes the byte before an offset. -/
def putBefore? (bytes : List UInt8) : (i : Nat) → UInt8 → Option (List UInt8)
  | 0, _ => none
  | i + 1, b => put? bytes i b

/-- Copies the bytes of a span. -/
def copy? (source bytes : List UInt8) (s : Span) : Option (List UInt8) := do
  overwrite? bytes s (← slice? source s)

/-- Writes the end of a statement to the last byte of an expression that can hold it. -/
def Expression.terminate? (e : Expression) (bytes : List UInt8) : Option (List UInt8) :=
  if e.terminated then putBefore? bytes e.region.stop ';'.toUInt8 else some bytes

/-- Writes `in` over the `of` of a loop. -/
def Expression.rewriteLoop? (e : Expression) (bytes : List UInt8) : Option (List UInt8) :=
  match e.loopWord with
  | some i => overwrite? bytes ⟨i, i + 2⟩ ['i'.toUInt8, 'n'.toUInt8]
  | none => some bytes

/-- Writes an expression over its delimiters. -/
def Expression.writeTo? (e : Expression) (source bytes : List UInt8) : Option (List UInt8) := do
  let bytes ← copy? source bytes e.body
  let bytes ← put? bytes e.region.start ';'.toUInt8
  let bytes ← putBefore? bytes e.body.start '('.toUInt8
  let bytes ← put? bytes e.body.stop ')'.toUInt8
  let bytes ← e.terminate? bytes
  e.rewriteLoop? bytes

/-! ### Buffers -/

/-- The bytes of a masked document with the script blocks and expressions that show. -/
structure Buffer where
  bytes : List UInt8
  scripts : List Span
  expressions : List Expression
deriving DecidableEq, Repr, Inhabited

namespace Buffer

/-- The masked document with the given script blocks and all its other expressions. -/
def ofText? (text : List Char) (scripts : List Span) : Option Buffer := do
  let source := utf8 text
  let bytes ← scripts.foldlM (copy? source) (source.map blankByte)
  let expressions := (templateExpressions text).filter fun e => !scripts.any e.region.overlaps
  let bytes ← expressions.foldlM (fun bytes e => e.writeTo? source bytes) bytes
  return ⟨bytes, scripts, expressions⟩

variable (b : Buffer)

/-- The place in the list of the expression responsible for an error at a byte: the first whose
region holds it, else the last that begins before it, else the first of all. -/
def culprit? (byte : Nat) : Option Nat :=
  match b.expressions.findIdx? (byte ∈ ·.region) with
  | some i => some i
  | none =>
    match b.expressions.reverse.findIdx? (·.region.start ≤ byte) with
    | some i => some (b.expressions.length - 1 - i)
    | none => if b.expressions.isEmpty then none else some 0

/-- Blanks the expression responsible for an error at a byte, and tells whether there was one; none
is looked for when the error lies in a script block. -/
def dropAt? (byte : Nat) : Option (Bool × Buffer) :=
  if b.scripts.any (byte ∈ ·) then some (false, b)
  else
    match b.culprit? byte with
    | none => some (false, b)
    | some i => do
      let e ← b.expressions[i]?
      let old ← slice? b.bytes e.region
      let bytes ← overwrite? b.bytes e.region (old.map blankByte)
      return (true, ⟨bytes, b.scripts, b.expressions.eraseIdx i⟩)

/-- Gives up the expressions responsible for errors at some bytes, one after another. -/
def dropAll? (errors : List Nat) : Option Buffer :=
  errors.foldlM (fun b byte => (b.dropAt? byte).map Prod.snd) b

end Buffer

end AnySpans.Vue
