import AnySpans.Documents.Snapshot
import AnySpans.Proofs.Lowering
import AnySpans.Syntax.Parse

/-!
# Trees of documents

Where readers accept nested concrete trees only, whose bytes they count in 32 bits, the tree of every
document is tree-shaped and the lines of each node hold those of its children
(`Readers.parse_shaped`).  `Readers.candidates` are the identifiers of a whole document by the rule of
selection.
-/

namespace AnySpans.Vue

/-- What comes of a masked document was read from some text. -/
theorem Mask.exists_read_of_settle {α : Type} {read : List Char → Reading α} {m : Mask} {a : α}
    (h : m.settle read = .accepted a) : ∃ text, read text = .accepted a := by
  induction m using Mask.settle.induct read with
  | case1 m byte hread m' hdrop ih =>
    rw [Mask.settle, hread] at h
    dsimp only at h
    split at h
    · rename_i m'' hdrop'
      obtain rfl : m' = m'' := Option.some.inj (hdrop.symm.trans hdrop')
      exact ih h
    · cases h
  | case2 m byte hread hdrop =>
    rw [Mask.settle, hread] at h
    dsimp only at h
    split at h
    · rename_i m' hdrop'
      rw [hdrop] at hdrop'
      cases hdrop'
    · cases h
  | case3 m hread =>
    rw [Mask.settle] at h
    split at h
    · rename_i byte hb
      exact absurd hb (hread byte)
    · exact ⟨_, h⟩

end AnySpans.Vue

namespace AnySpans.Syntax

open AnySpans.Documents AnySpans.Lines AnySpans.Vue

namespace Readers

variable {R : Readers}

/-- Every node of a concrete tree that is accepted starts no later than it ends and holds its
children.  Bytes are counted in 32 bits. -/
structure Nested (R : Readers) : Prop where
  plain : ∀ text t, R.plain text = .accepted t → t.Nested ∧ t.heading.span.stop ≤ limit
  markup : ∀ text t, R.markup text = .accepted t → t.Nested ∧ t.heading.span.stop ≤ limit

theorem parse_shaped (hR : R.Nested) {d : Dialect} {text : List Char} {t : Tree}
    (h : R.parse d text = .ok t) : ∃ o, t.Shaped o ∧ t.Layered o.ids := by
  have hlower : ∀ {c : Concrete}, c.Nested ∧ c.heading.span.stop ≤ limit → lower text c = t →
      ∃ o, t.Shaped o ∧ t.Layered o.ids := by
    rintro c ⟨hc, hstop⟩ rfl
    exact lower_shaped text hc hstop
  unfold parse at h
  dsimp only at h
  split at h
  · split at h
    · exact hlower (hR.plain _ _ ‹_›) (Except.ok.inj h)
    · cases h
    · cases h
  · split at h
    · exact hlower (hR.markup _ _ ‹_›) (Except.ok.inj h)
    · cases h
    · cases h
  · split at h
    · cases h
    · split at h
      · rename_i hsettle
        obtain ⟨masked, hread⟩ := Mask.exists_read_of_settle hsettle
        exact hlower (hR.plain _ _ hread) (Except.ok.inj h)
      · cases h
      · cases h

/-- Readers that read one text only, as a plain script. -/
def only (text : List Char) (t : Concrete) : Readers :=
  ⟨fun text' => if text' = text then .accepted t else .aborted, fun _ => .aborted⟩

theorem nested_only (text : List Char) {t : Concrete} (h : t.Nested)
    (hstop : t.heading.span.stop ≤ limit) : (only text t).Nested where
  plain text' t' h' := by
    dsimp only [only] at h'
    split at h'
    · cases h'
      exact ⟨h, hstop⟩
    · cases h'
  markup _ _ h' := by cases h'

/-- The tree of a document, if it has one. -/
def tree? (R : Readers) (s : Snapshot) : Option Tree :=
  (Dialect.detect s.language s.text.toList).bind fun d => (R.parse d s.text.toList).toOption

/-- The identifiers of a whole document whose types should be asked for. -/
def candidates (R : Readers) (s : Snapshot) : List Candidate :=
  match R.tree? s with
  | none => []
  | some t => ((findIdentifiers t none).toOption.map Selection.candidates).getD []

theorem candidates_eq {s : Snapshot} {d : Dialect} {t : Tree} {all : Selection}
    (hd : Dialect.detect s.language s.text.toList = some d)
    (ht : R.parse d s.text.toList = .ok t) (ha : findIdentifiers t none = .ok all) :
    R.candidates s = all.candidates := by
  have : R.tree? s = some t := by
    rw [tree?, hd, Option.bind_some, ht]
    rfl
  rw [candidates, this]
  dsimp only
  rw [ha]
  rfl

end Readers

end AnySpans.Syntax
