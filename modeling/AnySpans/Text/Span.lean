/-!
# Stretches of bytes

A `Span` names the bytes of a text from an offset up to, not including, another one.
-/

namespace AnySpans.Text

/-- The bytes from `start` up to, not including, `stop`. -/
structure Span where
  start : Nat
  stop : Nat
deriving DecidableEq, Repr, Inhabited

namespace Span

instance : Membership Nat Span := ⟨fun s byte => s.start ≤ byte ∧ byte < s.stop⟩

variable (s t : Span)

theorem mem_iff {byte : Nat} : byte ∈ s ↔ s.start ≤ byte ∧ byte < s.stop := Iff.rfl

instance (byte : Nat) : Decidable (byte ∈ s) := inferInstanceAs (Decidable (_ ∧ _))

/-- Whether two spans overlap. -/
def overlaps : Bool := s.start < t.stop && t.start < s.stop

end Span

end AnySpans.Text
