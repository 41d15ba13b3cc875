import AnySpans.Proofs.Identifiers
import AnySpans.Proofs.Reading
import AnySpans.Proofs.Selection
import AnySpans.Proofs.WellFormed

/-!
# Where identifiers start

In a concrete tree whose nodes lie side by side and whose names are not empty (`Concrete.Orderly`), no
two names start at the same byte.  So identifiers of a document that start at the same position are at
the same range (`Readers.range_eq_of_start_eq`), and a list of them has one order only.
-/

namespace AnySpans.Syntax

open AnySpans.Documents AnySpans.Lines AnySpans.Text

/-! ### Names in orderly trees -/

namespace Concrete

/-- The children of each node follow one another, and names are leaves that cover some text. -/
structure Orderly (text : List Char) (t : Concrete) : Prop extends t.Placed text where
  leaves : t.NamesAreLeaves
  apart : ∀ u ∈ t.nodes,
    u.children.Pairwise fun c c' => c.heading.span.stop ≤ c'.heading.span.start
  names : ∀ u ∈ t.nodes, u.heading.kind ∈ nameKinds → u.heading.span.start < u.heading.span.stop

variable {text : List Char} {h : Heading} {cs : List Concrete} {t u v c c' : Concrete}

theorem Orderly.child (ht : (node h cs).Orderly text) (hc : c ∈ cs) : c.Orderly text :=
  ⟨(ht.toPlaced.child c hc).1, ht.leaves.child c hc,
    fun u hu => ht.apart u (mem_nodes_of_child hc hu), fun u hu => ht.names u (mem_nodes_of_child hc hu)⟩

theorem Counts.mem_nodes (h : t.Counts u) : u ∈ t.nodes := by
  induction h with
  | self => exact mem_nodes_self _
  | descend hc _ _ ih => exact mem_nodes_of_child hc ih

theorem Counts.within (ht : t.Nested) (h : t.Counts u) : u.heading.span.Within t.heading.span := by
  induction h with
  | self => exact ⟨Nat.le_refl _, Nat.le_refl _⟩
  | descend hc _ _ ih =>
    obtain ⟨hwithin, hnested⟩ := nestedIn_iff.1 ht.2 _ hc
    have hbelow := ih hnested
    exact ⟨Nat.le_trans hwithin.1 hbelow.1, Nat.le_trans hbelow.2 hwithin.2⟩

/-- Of two of the nodes that follow one another, one stops before the other starts. -/
theorem apart_of_ne
    (h : cs.Pairwise fun c c' => c.heading.span.stop ≤ c'.heading.span.start) (hc : c ∈ cs)
    (hc' : c' ∈ cs) (hne : c ≠ c') : c.heading.span.stop ≤ c'.heading.span.start ∨
      c'.heading.span.stop ≤ c.heading.span.start := by
  induction h with
  | nil => cases hc
  | cons hfirst _ ih =>
    obtain _ | ⟨_, hc⟩ := hc <;> obtain _ | ⟨_, hc'⟩ := hc'
    · exact absurd rfl hne
    · exact .inl (hfirst _ hc')
    · exact .inr (hfirst _ hc)
    · exact ih hc hc'

/-- A name that starts where another one does is the same. -/
theorem Orderly.eq_of_start_eq (ht : t.Orderly text) (hu : t.Counts u) (hv : t.Counts v)
    (hku : u.heading.kind ∈ nameKinds) (hkv : v.heading.kind ∈ nameKinds)
    (heq : u.heading.span.start = v.heading.span.start) : u = v := by
  induction t with
  | node h cs ih =>
    have hleaf : ∀ w, w = node h cs → w.heading.kind ∈ nameKinds → cs = [] := by
      rintro _ rfl hk
      exact ht.leaves.children_eq hk
    cases hu with
    | self =>
      obtain rfl := hleaf _ rfl hku
      cases hv with
      | self => rfl
      | descend hc => cases hc
    | @descend _ _ c _ hc _ hu =>
      cases hv with
      | self =>
        obtain rfl := hleaf _ rfl hkv
        cases hc
      | @descend _ _ c' _ hc' _ hv =>
        by_cases hcc : c = c'
        · subst hcc
          exact ih c hc (ht.child hc) hu hv
        · exfalso
          have hside := apart_of_ne (ht.apart _ (mem_nodes_self _)) hc hc' hcc
          have hwu := hu.within (ht.child hc).nested
          have hwv := hv.within (ht.child hc').nested
          have hlu := (ht.child hc).names u hu.mem_nodes hku
          have hlv := (ht.child hc').names v hv.mem_nodes hkv
          obtain ⟨hwu₁, hwu₂⟩ := hwu
          obtain ⟨hwv₁, hwv₂⟩ := hwv
          omega

end Concrete

/-! ### Identifiers of documents -/

variable {t : Tree}

namespace Outline

/-- What is chosen are identifiers of the tree. -/
theorem identifier?_of_mem_select {wanted : Range → Bool} {o : Outline} {above : List NodeId}
    {c : Candidate} (hc : c ∈ o.select t wanted above) : t.identifier? c.node = some (c.name, c.range) := by
  induction o generalizing above with
  | node id cs ih =>
    rw [select] at hc
    split at hc
    · rename_i n hn
      split at hc
      · obtain hc | hc := List.mem_append.1 hc
        · obtain ⟨rfl, ⟨hshape, hrange⟩, -⟩ := mem_own_iff.1 hc
          obtain ⟨shape, range, below⟩ := n
          obtain rfl := hshape
          obtain rfl := hrange
          exact Tree.identifier?_eq_some_iff.2 ⟨below, hn⟩
        · obtain ⟨o, ho, hc⟩ := mem_selectAll.1 hc
          exact ih o ho hc
      · cases hc
    · cases hc

end Outline

/-- The identifiers of a document are names in its concrete tree. -/
theorem exists_counts_of_candidate {text : List Char} {c : Concrete} (hc : c.Orderly text)
    (hstop : c.heading.span.stop ≤ limit) {s : Selection}
    (hs : findIdentifiers (lower text c) none = .ok s) {x : Candidate} (hx : x ∈ s.candidates) :
    ∃ u, c.Counts u ∧ u.heading.kind ∈ Concrete.nameKinds ∧
      (Document.ofText text).range u.heading.span = x.range := by
  obtain ⟨o, ho, hl⟩ := lower_shaped text hc.nested hstop
  obtain ⟨s', hs', hselect⟩ := findIdentifiers_of_shaped ho hl.forward none
  obtain rfl := Except.ok.inj (hs'.symm.trans hs)
  rw [hselect] at hx
  obtain ⟨below, hn⟩ := Tree.identifier?_eq_some_iff.1 (Outline.identifier?_of_mem_select hx)
  obtain ⟨u, hu, hk, heq⟩ := exists_counts_of_identifier? text c (Array.mem_of_getElem? hn) rfl
  exact ⟨u, hu, hk, congrArg Prod.snd heq⟩

namespace Readers

variable {R : Readers}

/-- Concrete trees that are accepted are orderly.  Bytes are counted in 32 bits. -/
structure Orderly (R : Readers) : Prop where
  plain : ∀ text t, R.plain text = .accepted t → t.Orderly text ∧ t.heading.span.stop ≤ limit
  markup : ∀ text t, R.markup text = .accepted t → t.Orderly text ∧ t.heading.span.stop ≤ limit

theorem Orderly.nested (hR : R.Orderly) : R.Nested where
  plain text t h := (hR.plain text t h).imp_left fun ht => ht.nested
  markup text t h := (hR.markup text t h).imp_left fun ht => ht.nested

theorem orderly_only {text : List Char} {t : Concrete} (h : t.Orderly text)
    (hstop : t.heading.span.stop ≤ limit) : (only text t).Orderly where
  plain text' t' h' := by
    dsimp only [only] at h'
    split at h'
    · rename_i heq
      cases h'
      exact ⟨heq ▸ h, hstop⟩
    · cases h'
  markup _ _ h' := by cases h'

/-- The tree of a script is that of an orderly concrete tree. -/
theorem Orderly.exists_lower (hR : R.Orderly) {d : Dialect} (hd : d ≠ .vue) {text : List Char}
    (h : R.parse d text = .ok t) :
    ∃ c : Concrete, (c.Orderly text ∧ c.heading.span.stop ≤ limit) ∧ lower text c = t := by
  unfold parse at h
  dsimp only at h
  split at h
  · split at h
    · exact ⟨_, hR.plain _ _ ‹_›, Except.ok.inj h⟩
    · cases h
    · cases h
  · split at h
    · exact ⟨_, hR.markup _ _ ‹_›, Except.ok.inj h⟩
    · cases h
    · cases h
  · exact absurd rfl hd

variable {s : Snapshot} {d : Dialect} {x y : Candidate}

/-- The identifiers of a script are names in an orderly concrete tree. -/
theorem Orderly.exists_counts (hR : R.Orderly) (hd : d ≠ .vue)
    (hdetect : Dialect.detect s.language s.text.toList = some d)
    (hparse : R.parse d s.text.toList = .ok t) :
    ∃ c : Concrete, (c.Orderly s.text.toList ∧ c.heading.span.stop ≤ limit) ∧
      ∀ x ∈ R.candidates s, ∃ u, c.Counts u ∧ u.heading.kind ∈ Concrete.nameKinds ∧
        (Document.ofText s.text.toList).range u.heading.span = x.range := by
  obtain ⟨c, ⟨hc, hstop⟩, rfl⟩ := hR.exists_lower hd hparse
  obtain ⟨o, ho, hl⟩ := lower_shaped s.text.toList hc.nested hstop
  obtain ⟨all, hall, -⟩ := findIdentifiers_of_shaped ho hl.forward none
  refine ⟨c, ⟨hc, hstop⟩, fun x hx => ?_⟩
  rw [candidates_eq hdetect hparse hall] at hx
  exact exists_counts_of_candidate hc hstop hall hx

/-- Identifiers that start at the same position are at the same range. -/
theorem range_eq_of_start_eq (hR : R.Orderly) (hd : d ≠ .vue)
    (hdetect : Dialect.detect s.language s.text.toList = some d)
    (hparse : R.parse d s.text.toList = .ok t) (hx : x ∈ R.candidates s) (hy : y ∈ R.candidates s)
    (heq : x.range.start = y.range.start) : x.range = y.range := by
  obtain ⟨c, ⟨hc, hbytes⟩, hcandidates⟩ := hR.exists_counts hd hdetect hparse
  obtain ⟨u, hu, hku, hxu⟩ := hcandidates x hx
  obtain ⟨v, hv, hkv, hyv⟩ := hcandidates y hy
  have hbu := (hc.boundary u hu.mem_nodes).1
  have hbv := (hc.boundary v hv.mem_nodes).1
  rw [← hxu, ← hyv] at heq
  have hne : ∀ {p q : Position}, p < q → p ≠ q := by
    rintro p _ (h | h) rfl <;> omega
  have hlimit : ∀ {w}, c.Counts w → w.heading.kind ∈ Concrete.nameKinds →
      w.heading.span.start ≤ limit := fun hw hk =>
    Nat.le_trans (Nat.le_of_lt (hc.names _ hw.mem_nodes hk))
      (Nat.le_trans (hw.within hc.nested).2 hbytes)
  have hstart : u.heading.span.start = v.heading.span.start := by
    obtain hlt | heq' | hlt := Nat.lt_trichotomy u.heading.span.start v.heading.span.start
    · exact absurd heq (hne (LineIndex.position_lt hbu hbv hlt (hlimit hv hkv)))
    · exact heq'
    · exact absurd heq.symm (hne (LineIndex.position_lt hbv hbu hlt (hlimit hu hku)))
  obtain rfl := hc.eq_of_start_eq hu hv hku hkv hstart
  rw [← hxu, ← hyv]

/-- The coordinates of identifiers are no greater than the length of the document. -/
theorem Orderly.coordinates_le (hR : R.Orderly) (hd : d ≠ .vue)
    (hdetect : Dialect.detect s.language s.text.toList = some d)
    (hparse : R.parse d s.text.toList = .ok t) (hx : x ∈ R.candidates s) (p : Position)
    (hp : p = x.range.start ∨ p = x.range.stop) :
    p.line ≤ byteLength s.text.toList ∧ p.character ≤ byteLength s.text.toList := by
  obtain ⟨c, ⟨hc, -⟩, hcandidates⟩ := hR.exists_counts hd hdetect hparse
  obtain ⟨u, hu, -, hxu⟩ := hcandidates x hx
  obtain ⟨hstart, hstop⟩ := hc.boundary u hu.mem_nodes
  have hle : ∀ {i : Nat}, Boundary s.text.toList i →
      ((LineIndex.ofText s.text.toList).position s.text.toList i).line ≤ byteLength s.text.toList ∧
        ((LineIndex.ofText s.text.toList).position s.text.toList i).character ≤
          byteLength s.text.toList := fun hi =>
    ⟨Nat.le_trans (LineIndex.position_le_offset hi).1 hi.le,
      Nat.le_trans (LineIndex.position_le_offset hi).2 hi.le⟩
  obtain rfl | rfl := hp
  · exact hxu ▸ hle hstart
  · exact hxu ▸ hle hstop

end Readers

end AnySpans.Syntax
