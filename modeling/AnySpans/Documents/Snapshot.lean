import AnySpans.Files.Path
import AnySpans.Lines.Interval

/-!
# Documents

A `Snapshot` is the text of a document as its host saw it at one moment.  Documents are told apart by
their paths; keys with the same parts are the same document, whatever their spelling.  A `Request`
asks for the visible lines of a snapshot to be analysed.
-/

namespace AnySpans.Documents

open AnySpans.Files AnySpans.Lines

/-- The path of a document. -/
structure Key where
  path : String
deriving Repr, Inhabited

namespace Key

/-- What tells documents apart. -/
def identity (k : Key) : List Part := parts k.path

instance : BEq Key := ⟨fun a b => a.identity == b.identity⟩

theorem beq_iff {a b : Key} : (a == b) = true ↔ a.identity = b.identity := by
  show (a.identity == b.identity) = true ↔ _
  exact beq_iff_eq

instance : EquivBEq Key where
  rfl := beq_iff.2 rfl
  symm h := beq_iff.2 (beq_iff.1 h).symm
  trans h h' := beq_iff.2 ((beq_iff.1 h).trans (beq_iff.1 h'))

end Key

/-- A document's text at one moment. -/
structure Snapshot where
  key : Key
  /-- The host's id of the language. -/
  language : String
  text : String
deriving Repr, Inhabited

namespace Snapshot

variable (s : Snapshot)

/-- The number of the last line. -/
def lastLine : Nat := s.text.toList.count '\n'

/-- All lines. -/
def lines : LineRange := ⟨0, s.lastLine, Nat.zero_le _⟩

end Snapshot

/-- A wish to have the visible lines of a document analysed. -/
structure Request where
  document : Snapshot
  visible : LineRange
deriving Repr, Inhabited

namespace Request

/-- The request for a whole document. -/
def whole (s : Snapshot) : Request := ⟨s, s.lines⟩

def key (r : Request) : Key := r.document.key

end Request

end AnySpans.Documents
