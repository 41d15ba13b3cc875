/-!
# Scanning a text

A `Cursor` stands in a text: it knows the byte offset it has reached and the characters that follow.
Scans are built from `skipWhile`, `expect` and `find`, none of which moves a cursor back.
-/

namespace AnySpans.Text

/-- A place in a text: its byte offset and what follows. -/
structure Cursor where
  byte : Nat
  rest : List Char
deriving DecidableEq, Repr, Inhabited

namespace Cursor

/-- The start of a text that begins at a byte offset. -/
def ofText (cs : List Char) (byte : Nat) : Cursor := ⟨byte, cs⟩

/-- The cursor after the characters of a longest run that satisfy a test. -/
def skipFrom (p : Char → Bool) (byte : Nat) : List Char → Cursor
  | [] => ⟨byte, []⟩
  | c :: cs => if p c then skipFrom p (byte + c.utf8Size) cs else ⟨byte, c :: cs⟩

/-- Moves past the longest run of characters that satisfy a test. -/
def skipWhile (k : Cursor) (p : Char → Bool) : Cursor := skipFrom p k.byte k.rest

/-- Moves past characters that satisfy the given tests, one after another. -/
def expect (k : Cursor) : List (Char → Bool) → Option Cursor
  | [] => some k
  | p :: ps =>
    match k.rest with
    | [] => none
    | c :: cs => if p c then expect ⟨k.byte + c.utf8Size, cs⟩ ps else none

/-- Moves past a character that satisfies a test. -/
def one (k : Cursor) (p : Char → Bool) : Option Cursor := k.expect [p]

/-- Moves past a run of at least one character that satisfies a test. -/
def run (k : Cursor) (p : Char → Bool) : Option Cursor := (k.one p).map (·.skipWhile p)

/-- The first place from `byte` on where a scan succeeds, with what it gives there. -/
def findFrom {α : Type} (f : Cursor → Option α) (byte : Nat) : List Char → Option (Cursor × α)
  | [] => (f ⟨byte, []⟩).map ((⟨byte, []⟩, ·))
  | c :: cs =>
    match f ⟨byte, c :: cs⟩ with
    | some a => some (⟨byte, c :: cs⟩, a)
    | none => findFrom f (byte + c.utf8Size) cs

/-- The first place at or after a cursor where a scan succeeds, with what it gives there. -/
def find {α : Type} (k : Cursor) (f : Cursor → Option α) : Option (Cursor × α) :=
  findFrom f k.byte k.rest

/-- The last place from `byte` on where a scan succeeds, with what it gives there. -/
def findLastFrom {α : Type} (f : Cursor → Option α) (byte : Nat) : List Char → Option (Cursor × α)
  | [] => (f ⟨byte, []⟩).map ((⟨byte, []⟩, ·))
  | c :: cs =>
    match findLastFrom f (byte + c.utf8Size) cs with
    | some r => some r
    | none => (f ⟨byte, c :: cs⟩).map ((⟨byte, c :: cs⟩, ·))

/-- The last place at or after a cursor where a scan succeeds, with what it gives there. -/
def findLast {α : Type} (k : Cursor) (f : Cursor → Option α) : Option (Cursor × α) :=
  findLastFrom f k.byte k.rest

/-- What a scan gives at the places where it succeeds, from left to right; after a success it goes on
where the scan ended. -/
def allFrom {α : Type} (f : Cursor → Option (α × Cursor)) (byte : Nat) (cs : List Char) : List α :=
  match f ⟨byte, cs⟩ with
  | some (a, k) =>
    if k.rest.length < cs.length then a :: allFrom f k.byte k.rest
    else match cs with
      | [] => []
      | c :: cs => allFrom f (byte + c.utf8Size) cs
  | none =>
    match cs with
    | [] => []
    | c :: cs => allFrom f (byte + c.utf8Size) cs
termination_by cs.length

/-- All successes of a scan from a cursor on, from left to right and without overlaps. -/
def all {α : Type} (k : Cursor) (f : Cursor → Option (α × Cursor)) : List α :=
  allFrom f k.byte k.rest

/-- The text between a cursor and a later one. -/
def textTo (k l : Cursor) : List Char := k.rest.take (k.rest.length - l.rest.length)

end Cursor

end AnySpans.Text
