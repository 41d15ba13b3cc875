import AnySpans.Proofs.Forests
import Mathlib.Data.List.Perm.Basic

/-!
# Names and identifiers

The names of a text are the nodes of a concrete tree that become identifiers, `occurrences`, each
with its `Site`: the kind of the parent, where parentheses do not count, and whether the name stands
for a shorthand member with a default.  Lowering makes no identifiers but of names, and as long as there is an id for each
node it makes one of a name, or two of one that is key and value at once (`lower_names`).

A name with a default is counted a second time by the node above it, which looks at what its left side
became.  `Accounted` therefore says also what becomes of some nodes if they stood for a shorthand
member: for each of them that is lowered to an identifier there is one identifier more.
-/

namespace AnySpans.Syntax

open AnySpans.Text

/-! ### The names of a concrete tree -/

/-- Where a name stands. -/
structure Site where
  /-- The kind of the parent; parentheses around a single child are skipped. -/
  parent : Option String
  /-- The name is the left side of a shorthand member with a default. -/
  defaulted : Bool

/-- A name in a text. -/
structure Occurrence where
  site : Site
  heading : Heading

instance (parent : Option String) (kind : String) : Decidable (IsMember parent kind) :=
  inferInstanceAs (Decidable (_ ∨ _ ∧ _))

/-- How many identifiers a name becomes: two if it is a key as well as a value. -/
def Occurrence.copies (o : Occurrence) : Nat :=
  if IsMember o.site.parent o.heading.kind ∨ o.site.defaulted then 2 else 1

theorem Occurrence.copies_of_isMember {parent : Option String} {h : Heading}
    (hm : IsMember parent h.kind) (defaulted : Bool) : copies ⟨⟨parent, defaulted⟩, h⟩ = 2 :=
  if_pos (.inl hm)

theorem Occurrence.copies_of_not_isMember {parent : Option String} {h : Heading}
    (hm : ¬ IsMember parent h.kind) (defaulted : Bool) :
    copies ⟨⟨parent, defaulted⟩, h⟩ = if defaulted then 2 else 1 := by
  simp only [copies, hm, false_or]

/-- A name as it is written, and where. -/
def Occurrence.written (d : Document) (o : Occurrence) : String × Range :=
  (d.slice o.heading.span, d.range o.heading.span)

namespace Concrete

/-- The field of the child that is the name of a shorthand member with a default. -/
def nameField (h : Heading) (cs : List Concrete) : Option String :=
  if h.kind = "object_assignment_pattern" ∧ (fieldChild cs "left").any isSignificant ∧
    (fieldChild cs "right").any isSignificant then some "left" else none

mutual

/-- The names in a tree that stands at a site. -/
def occurrences (site : Site) : Concrete → List Occurrence
  | node h cs =>
    (if h.kind ∈ nameKinds then [⟨site, h⟩] else []) ++
      if isWrapper h cs then occurrencesIn site none cs
      else occurrencesIn ⟨some h.kind, false⟩ (nameField h cs) cs

/-- The names in the children that count.  The first child that fills the field is the name of a
shorthand member with a default. -/
def occurrencesIn (site : Site) (field : Option String) : List Concrete → List Occurrence
  | [] => []
  | c :: cs =>
    let fills := field.any c.heading.fields.contains
    (if c.isSignificant then occurrences { site with defaulted := site.defaulted || fills } c
      else []) ++ occurrencesIn site (if fills then none else field) cs

end

/-- The names of a whole text. -/
def names (t : Concrete) : List Occurrence := t.occurrences ⟨none, false⟩

/-- A node counts in a tree if it and all nodes between count as children. -/
inductive Counts : Concrete → Concrete → Prop
  | self {t : Concrete} : Counts t t
  | descend {h : Heading} {cs : List Concrete} {c u : Concrete} :
    c ∈ cs → c.isSignificant = true → Counts c u → Counts (node h cs) u

section

variable {h : Heading} {cs : List Concrete} {c : Concrete} {site : Site} {field : String}

theorem occurrences_leaf (hk : h.kind ∈ nameKinds) :
    (node h []).occurrences site = [⟨site, h⟩] := by
  rw [occurrences, if_pos hk, occurrencesIn, occurrencesIn, ite_self, List.append_nil]

theorem occurrences_node (hk : h.kind ∉ nameKinds) (hwrap : isWrapper h cs = false) :
    (node h cs).occurrences site = occurrencesIn ⟨some h.kind, false⟩ (nameField h cs) cs := by
  rw [occurrences, if_neg hk, hwrap, if_neg Bool.false_ne_true, List.nil_append]

theorem occurrences_wrapper (hwrap : isWrapper h cs = true) :
    (node h cs).occurrences site = occurrencesIn site none cs := by
  have hkind : h.kind = "parenthesized_expression" := by
    simp only [isWrapper, Bool.and_eq_true, beq_iff_eq] at hwrap
    exact hwrap.1
  have hk : h.kind ∉ nameKinds := by
    rw [hkind]
    decide
  rw [occurrences, if_neg hk, if_pos hwrap, List.nil_append]

theorem occurrencesIn_skip (hc : c.isSignificant = false) : occurrencesIn site none (c :: cs) =
    occurrencesIn site none cs := by
  rw [occurrencesIn, hc]
  rfl

theorem occurrencesIn_cons (hc : c.isSignificant = true) : occurrencesIn site none (c :: cs) =
    c.occurrences site ++ occurrencesIn site none cs := by
  simp only [occurrencesIn, hc, Option.any_none, Bool.or_false, if_true, Bool.false_eq_true,
    if_false]

theorem exists_mem_occurrencesIn_iff {p : Occurrence → Prop} {q : Concrete → Prop} {site : Site}
    {field : Option String} (h : ∀ c ∈ cs, ∀ site, (∃ o ∈ c.occurrences site, p o) ↔ q c) :
    (∃ o ∈ occurrencesIn site field cs, p o) ↔ ∃ c ∈ cs, c.isSignificant = true ∧ q c := by
  induction cs generalizing field with
  | nil => simp [occurrencesIn]
  | cons c cs ih =>
    have hrest : (∃ o ∈ occurrencesIn site
        (if field.any c.heading.fields.contains then none else field) cs, p o) ↔
        ∃ c ∈ cs, c.isSignificant = true ∧ q c :=
      ih fun c' hc' => h c' (List.mem_cons_of_mem c hc')
    have hself := h c List.mem_cons_self
      { site with defaulted := site.defaulted || field.any c.heading.fields.contains }
    rw [occurrencesIn]
    simp only [List.mem_append, or_and_right, exists_or, hrest, List.mem_cons, exists_eq_left]
    refine or_congr ?_ .rfl
    cases c.isSignificant with
    | true => simpa only [if_true, true_and] using hself
    | false => simp

/-- The names of a tree are its nodes that count and have the kind of a name. -/
theorem exists_mem_occurrences_iff {t : Concrete} {site : Site} :
    (∃ o ∈ t.occurrences site, o.heading = h) ↔
      ∃ u, t.Counts u ∧ u.heading = h ∧ h.kind ∈ nameKinds := by
  induction t generalizing site with
  | node h' cs ih =>
    have hbelow : ∀ site field, (∃ o ∈ occurrencesIn site field cs, o.heading = h) ↔
        ∃ c ∈ cs, c.isSignificant = true ∧ ∃ u, c.Counts u ∧ u.heading = h ∧ h.kind ∈ nameKinds :=
      fun site field => exists_mem_occurrencesIn_iff fun c hc site => ih c hc
    have hsplit : (∃ o ∈ (node h' cs).occurrences site, o.heading = h) ↔
        (h' = h ∧ h.kind ∈ nameKinds) ∨ ∃ c ∈ cs, c.isSignificant = true ∧
          ∃ u, c.Counts u ∧ u.heading = h ∧ h.kind ∈ nameKinds := by
      rw [occurrences]
      simp only [List.mem_append, or_and_right, exists_or]
      refine or_congr ?_ ?_
      · split
        · rename_i hk
          simp only [List.mem_singleton, exists_eq_left]
          exact ⟨fun hh => ⟨hh, hh ▸ hk⟩, And.left⟩
        · rename_i hk
          exact ⟨fun ⟨_, ho, _⟩ => absurd ho List.not_mem_nil,
            fun ⟨hh, hk'⟩ => absurd (hh ▸ hk') hk⟩
      · split <;> exact hbelow _ _
    rw [hsplit]
    constructor
    · rintro (⟨rfl, hk⟩ | ⟨c, hc, hsig, u, hu, hh⟩)
      · exact ⟨_, .self, rfl, hk⟩
      · exact ⟨u, .descend hc hsig hu, hh⟩
    · rintro ⟨u, hu, hh, hk⟩
      cases hu with
      | self => exact .inl ⟨hh, hk⟩
      | descend hc hsig hu => exact .inr ⟨_, hc, hsig, u, hu, hh, hk⟩

/-- The first child that fills a field counts if its lowered node is found. -/
theorem any_fieldChild_of_fieldId {ids : List NodeId} {i : NodeId}
    (h : fieldId cs ids field = some i) : (fieldChild cs field).any isSignificant = true := by
  induction cs generalizing ids with
  | nil => cases h
  | cons c cs ih =>
    rw [fieldId] at h
    rw [fieldChild, List.find?_cons]
    split at h
    · rename_i hfills
      rw [hfills]
      split at h
      · assumption
      · cases h
    · rename_i hfills
      rw [Bool.eq_false_iff.2 hfills]
      exact ih h

/-- If the first child that fills a field counts, its lowered node is found. -/
theorem exists_fieldId {ids : List NodeId} (hlen : ids.length = (cs.filter isSignificant).length)
    (h : (fieldChild cs field).any isSignificant = true) : ∃ i, fieldId cs ids field = some i := by
  induction cs generalizing ids with
  | nil => cases h
  | cons c cs ih =>
    rw [fieldChild, List.find?_cons] at h
    rw [fieldId]
    cases hfills : c.heading.fields.contains field with
    | true =>
      rw [hfills] at h
      have hc : c.isSignificant = true := h
      rw [List.filter_cons_of_pos hc] at hlen
      obtain ⟨i, ids, rfl⟩ := List.exists_cons_of_length_eq_add_one hlen
      exact ⟨i, by rw [if_pos rfl, if_pos hc, List.head?_cons]⟩
    | false =>
      rw [hfills] at h
      rw [if_neg Bool.false_ne_true]
      refine ih ?_ h
      cases hc : c.isSignificant with
      | true =>
        rw [List.filter_cons_of_pos hc] at hlen
        rw [if_pos rfl, List.length_tail, hlen, List.length_cons, Nat.add_sub_cancel]
      | false => rwa [List.filter_cons_of_neg (by rw [hc]; exact Bool.false_ne_true)] at hlen

end

end Concrete

/-! ### The identifiers of an arena -/

private theorem append_append_perm {α : Type} (k l m n : List α) :
    (k ++ l ++ (m ++ n)).Perm (k ++ m ++ (l ++ n)) := by
  have swap : (l ++ m).Perm (m ++ l) := List.perm_append_comm
  simpa only [List.append_assoc] using (swap.append_right n).append_left k

/-- The name and the range of an identifier. -/
def Node.identifier? (n : Node) : Option (String × Range) :=
  match n.shape with
  | .identifier name => some (name, n.range)
  | _ => none

private theorem filterMap_singleton {α β : Type} (f : α → Option β) (x : α) :
    [x].filterMap f = (f x).toList := by
  rw [List.filterMap_eq_flatMap_toList, List.flatMap_singleton]

namespace Tree

variable (t : Tree)

/-- The name and the range of the identifier with an id. -/
def identifier? (i : NodeId) : Option (String × Range) := (t.get? i).bind Node.identifier?

/-- All identifiers, in the order of their ids. -/
def identifiers : List (String × Range) := t.nodes.toList.filterMap Node.identifier?

variable {t} in
theorem identifier?_eq_some_iff {i : NodeId} {x : String × Range} :
    t.identifier? i = some x ↔ ∃ below, t.get? i = some ⟨.identifier x.1, x.2, below⟩ := by
  constructor
  · intro h
    obtain ⟨⟨shape, range, below⟩, hn, hx⟩ := Option.bind_eq_some_iff.1 h
    unfold Node.identifier? at hx
    split at hx
    · rename_i hshape
      obtain rfl := Option.some.inj hx
      exact ⟨below, hshape ▸ hn⟩
    · cases hx
  · rintro ⟨below, hn⟩
    rw [identifier?, hn]
    rfl

theorem identifiers_push (a : Arena) (n : Node) : (Arena.tree (a.push n)).identifiers =
    a.tree.identifiers ++ n.identifier?.toList := by
  simp only [identifiers, Arena.tree, Array.toList_push, List.filterMap_append,
    filterMap_singleton]

end Tree

theorem identifier?_add {a : Arena} {shape : Shape} {r : Range} {ids : List NodeId}
    (hfits : (a.add shape r ids).1.size ≤ 2 ^ 32) :
    (a.add shape r ids).1.tree.identifier? (a.add shape r ids).2 =
      Node.identifier? ⟨shape, r, ids⟩ := by
  rw [Arena.add, Array.size_push] at hfits
  have hself : (a.add shape r ids).1.tree.get? (a.add shape r ids).2 = some ⟨shape, r, ids⟩ :=
    Arena.get?_nextId hfits _
  rw [Tree.identifier?, hself, Option.bind_some]

theorem identifier?_addShorthand {d : Document} {a : Arena} {s : Span}
    (hfits : (addShorthand d a s).1.size ≤ 2 ^ 32) :
    (addShorthand d a s).1.tree.identifier? (addShorthand d a s).2 = none :=
  identifier?_add hfits

theorem identifiers_add (a : Arena) (shape : Shape) (r : Range) (ids : List NodeId) :
    (a.add shape r ids).1.tree.identifiers =
      a.tree.identifiers ++ (Node.identifier? ⟨shape, r, ids⟩).toList :=
  Tree.identifiers_push a _

theorem identifiers_addShorthand (d : Document) (a : Arena) (s : Span) :
    (addShorthand d a s).1.tree.identifiers =
      a.tree.identifiers ++ List.replicate 2 (d.slice s, d.range s) := by
  rw [addShorthand, identifiers_add, addIdentifier, identifiers_add, addIdentifier, identifiers_add]
  simp only [Node.identifier?, Option.toList, List.append_nil, List.append_assoc]
  rfl

theorem Node.identifier?_of_ne {n : Node} (h : ∀ name, n.shape ≠ .identifier name) :
    n.identifier? = none := by
  unfold Node.identifier?
  split
  · rename_i name hname
    exact absurd hname (h name)
  · rfl

/-- The identifiers that some names become. -/
def written (d : Document) (os : List Occurrence) : List (String × Range) :=
  os.flatMap fun o => List.replicate o.copies (o.written d)

theorem written_append (d : Document) (os os' : List Occurrence) :
    written d (os ++ os') = written d os ++ written d os' := List.flatMap_append

theorem written_singleton (d : Document) (o : Occurrence) :
    written d [o] = List.replicate o.copies (o.written d) := List.flatMap_singleton _ _

/-! ### Accounts -/

/-- What lowering comes to, counted: the identifiers of the names, and for each lowered node that is
an identifier one more if the nodes stood for shorthand members. -/
structure Accounted (d : Document) (a : Arena) (r : Arena × List NodeId)
    (plain defaulted : List Occurrence) : Prop extends Grows a r where
  found : r.1.tree.identifiers.Perm (a.tree.identifiers ++ written d plain)
  more : (written d defaulted).Perm (r.2.filterMap r.1.tree.identifier? ++ written d plain)

/-- What lowering some children comes to. -/
structure AccountedIn (d : Document) (parent : Option String) (cs : List Concrete) (a : Arena)
    (r : Arena × List NodeId) : Prop extends
    Accounted d a r (Concrete.occurrencesIn ⟨parent, false⟩ none cs)
      (Concrete.occurrencesIn ⟨parent, true⟩ none cs) where
  length : r.2.length = (cs.filter Concrete.isSignificant).length
  /-- If the child in a field became an identifier, it counts once more as the name of a shorthand
  member. -/
  named : ∀ field, (written d (Concrete.occurrencesIn ⟨parent, false⟩ (some field) cs)).Perm
    (((fieldId cs r.2 field).bind r.1.tree.identifier?).toList ++
      written d (Concrete.occurrencesIn ⟨parent, false⟩ none cs))

section

variable {d : Document} {parent : Option String} {h : Heading} {cs : List Concrete} {c : Concrete}
  {a : Arena} {r r' : Arena × List NodeId} {p q p' q' : List Occurrence}

theorem identifier?_of_keeps {a a' : Arena}
    (hk : ∀ i n, a.tree.get? i = some n → a'.tree.get? i = some n) {i : NodeId}
    (hi : ∃ n, a.tree.get? i = some n) : a'.tree.identifier? i = a.tree.identifier? i := by
  obtain ⟨n, hn⟩ := hi
  rw [Tree.identifier?, Tree.identifier?, hn, hk i n hn]

theorem Accounted.append (h : Accounted d a r p q) (h' : Accounted d r.1 r' p' q') :
    Accounted d a (r'.1, r.2 ++ r'.2) (p ++ p') (q ++ q') where
  toGrows := h.toGrows.append h'.toGrows
  found := by
    rw [written_append, ← List.append_assoc]
    exact h'.found.trans (h.found.append_right _)
  more := by
    have hsame : r.2.filterMap r'.1.tree.identifier? = r.2.filterMap r.1.tree.identifier? :=
      List.filterMap_congr fun i hi => identifier?_of_keeps h'.keeps (h.inside i hi)
    rw [written_append, written_append, List.filterMap_append, hsame]
    exact (h.more.append h'.more).trans (append_append_perm _ _ _ _)

theorem AccountedIn.nil (d : Document) (parent : Option String) (a : Arena) :
    AccountedIn d parent [] a (a, []) where
  toGrows := .nil a
  found := (List.append_nil _).symm ▸ .refl _
  more := .refl _
  length := rfl
  named _ := .refl _

theorem AccountedIn.skip (hc : c.isSignificant = false) (h : AccountedIn d parent cs a r) :
    AccountedIn d parent (c :: cs) a r where
  toGrows := h.toGrows
  found := by
    rw [Concrete.occurrencesIn_skip hc]
    exact h.found
  more := by
    rw [Concrete.occurrencesIn_skip hc, Concrete.occurrencesIn_skip hc]
    exact h.more
  length := by
    rw [List.filter_cons_of_neg (by rw [hc]; exact Bool.false_ne_true)]
    exact h.length
  named field := by
    rw [Concrete.occurrencesIn_skip hc, Concrete.occurrencesIn, fieldId, hc, Option.any_some]
    simp only [Bool.false_eq_true, if_false, List.nil_append]
    cases c.heading.fields.contains field with
    | true => exact .refl _
    | false => exact h.named field

theorem AccountedIn.cons (hc : c.isSignificant = true) (hlen : r.2.length = 1)
    (h : Accounted d a r (c.occurrences ⟨parent, false⟩) (c.occurrences ⟨parent, true⟩))
    (h' : AccountedIn d parent cs r.1 r') :
    AccountedIn d parent (c :: cs) a (r'.1, r.2 ++ r'.2) where
  toAccounted := by
    rw [Concrete.occurrencesIn_cons hc, Concrete.occurrencesIn_cons hc]
    exact h.append h'.toAccounted
  length := by
    rw [List.filter_cons_of_pos hc, List.length_append, hlen, h'.length, List.length_cons,
      Nat.add_comm]
  named field := by
    obtain ⟨i, hi⟩ := List.length_eq_one_iff.1 hlen
    rw [Concrete.occurrencesIn_cons hc, Concrete.occurrencesIn, fieldId, hc, Option.any_some, hi]
    cases c.heading.fields.contains field with
    | true =>
      -- the child itself is the one in the field
      have hsame := identifier?_of_keeps h'.keeps (h.inside i (hi ▸ List.mem_singleton_self i))
      have hmore := h.more
      rw [hi, filterMap_singleton, ← hsame] at hmore
      simpa only [if_true, Bool.or_true, List.cons_append, List.head?_cons, Option.bind_some,
        written_append, List.append_assoc] using hmore.append_right _
    | false =>
      have hrest := (h'.named field).append_left (written d (c.occurrences ⟨parent, false⟩))
      simp only [if_true, Bool.or_false, Bool.false_eq_true, if_false, List.cons_append,
        List.tail_cons, List.nil_append, written_append]
      refine hrest.trans ?_
      rw [← List.append_assoc, ← List.append_assoc]
      exact List.perm_append_comm.append_right _

/-- The names in a node that is none, when nothing stands for a shorthand member with a default. -/
theorem AccountedIn.unnamed (hk : h.kind ∉ Concrete.nameKinds)
    (hwrap : Concrete.isWrapper h cs = false) (hr : AccountedIn d (some h.kind) cs a r)
    (hnone : ∀ sides, sides? h cs r.2 = some sides → ∀ name at' below,
      (Arena.tree (r.1.push (assignment d h r.2 sides))).get? sides.1 ≠
        some ⟨.identifier name, at', below⟩)
    (site : Site) : (written d ((Concrete.node h cs).occurrences site)).Perm
      (written d (Concrete.occurrencesIn ⟨some h.kind, false⟩ none cs)) := by
  rw [Concrete.occurrences_node hk hwrap, Concrete.nameField]
  split
  · rename_i hdefault
    obtain ⟨hkind, hleft, hright⟩ := hdefault
    obtain ⟨left, hleft⟩ := Concrete.exists_fieldId hr.length hleft
    obtain ⟨right, hright⟩ := Concrete.exists_fieldId hr.length hright
    have hsides : sides? h cs r.2 = some (left, right) := by
      rw [sides?, if_pos hkind, hleft, hright]
      rfl
    have hleft_none : r.1.tree.identifier? left = none := by
      refine Option.eq_none_iff_forall_ne_some.2 fun x hx => ?_
      obtain ⟨below, hget⟩ := Tree.identifier?_eq_some_iff.1 hx
      exact hnone _ hsides x.1 x.2 below (Arena.get?_push hget)
    have := hr.named "left"
    rwa [hleft, Option.bind_some, hleft_none] at this
  · exact .refl _

/-- The names in a shorthand member with a default: its own name counts once more. -/
theorem AccountedIn.defaulted (hk : h.kind ∉ Concrete.nameKinds)
    (hwrap : Concrete.isWrapper h cs = false) (hr : AccountedIn d (some h.kind) cs a r)
    {sides : NodeId × NodeId} (hs : sides? h cs r.2 = some sides) (site : Site) :
    (written d ((Concrete.node h cs).occurrences site)).Perm
      ((r.1.tree.identifier? sides.1).toList ++
        written d (Concrete.occurrencesIn ⟨some h.kind, false⟩ none cs)) := by
  unfold sides? at hs
  split at hs
  · rename_i hkind
    obtain ⟨left, hleft, hs⟩ := Option.bind_eq_some_iff.1 hs
    obtain ⟨right, hright, rfl⟩ := Option.map_eq_some_iff.1 hs
    have hdefault : Concrete.nameField h cs = some "left" :=
      if_pos ⟨hkind, Concrete.any_fieldChild_of_fieldId hleft,
        Concrete.any_fieldChild_of_fieldId hright⟩
    have := hr.named "left"
    rw [Concrete.occurrences_node hk hwrap, hdefault]
    rwa [hleft, Option.bind_some] at this
  · cases hs

theorem AccountedIn.perm_of_nil (hr : AccountedIn d parent [] a r) :
    r.1.tree.identifiers.Perm a.tree.identifiers :=
  (List.append_nil a.tree.identifiers) ▸ hr.found

/-- Adding the node of a heading accounts for the names at it and below. -/
theorem AccountedIn.adds (hr : AccountedIn d (some h.kind) cs a r)
    (hwrap : Concrete.isWrapper h cs = false) (hleaf : h.kind ∈ Concrete.nameKinds → cs = [])
    {added : Arena × NodeId} (hadd : Adds d parent h cs r.2 r.1 added)
    (hfits : added.1.size ≤ 2 ^ 32) :
    Accounted d a (added.1, [added.2]) ((Concrete.node h cs).occurrences ⟨parent, false⟩)
      ((Concrete.node h cs).occurrences ⟨parent, true⟩) where
  toGrows := hr.toGrows.adds hadd
  found := by
    cases hadd with
    | identifier hk hm =>
      obtain rfl := hleaf hk
      rw [Concrete.occurrences_leaf hk, written_singleton, Occurrence.copies_of_not_isMember hm,
        addIdentifier, identifiers_add]
      exact hr.perm_of_nil.append_right _
    | member hk hm =>
      obtain rfl := hleaf hk
      rw [Concrete.occurrences_leaf hk, written_singleton, Occurrence.copies_of_isMember hm,
        identifiers_addShorthand]
      exact hr.perm_of_nil.append_right _
    | @defaulted sides name at' below hk hs hget =>
      have hname : r.1.tree.identifier? sides.1 = some (name, at') := by
        rw [← identifier?_of_keeps (fun _ _ => Arena.get?_push) (hr.inside _ (mem_of_sides? hs).1)]
        exact Tree.identifier?_eq_some_iff.2 ⟨below, hget⟩
      have hnames := hr.defaulted hk hwrap hs ⟨parent, false⟩
      rw [hname] at hnames
      rw [identifiers_add, Tree.identifiers_push, Tree.identifiers_push]
      refine .trans ?_ (hnames.symm.append_left _)
      simp only [Node.identifier?, assignment, Option.toList, List.append_nil]
      rw [← List.append_assoc]
      exact (hr.found.append_right _).trans (by
        simpa only [List.append_assoc] using List.perm_append_comm.append_left _)
    | node hk hshape _ hnone =>
      have hnames := hr.unnamed hk hwrap hnone ⟨parent, false⟩
      rw [identifiers_add, Node.identifier?_of_ne hshape]
      refine .trans ?_ (hnames.symm.append_left _)
      simpa only [Option.toList, List.append_nil] using hr.found
  more := by
    rw [filterMap_singleton]
    dsimp only
    cases hadd with
    | identifier hk hm =>
      obtain rfl := hleaf hk
      rw [Concrete.occurrences_leaf hk, Concrete.occurrences_leaf hk, written_singleton,
        written_singleton, Occurrence.copies_of_not_isMember hm,
        Occurrence.copies_of_not_isMember hm, addIdentifier, identifier?_add hfits]
      exact .refl _
    | member hk hm =>
      obtain rfl := hleaf hk
      rw [Concrete.occurrences_leaf hk, Concrete.occurrences_leaf hk, written_singleton,
        written_singleton, Occurrence.copies_of_isMember hm, Occurrence.copies_of_isMember hm,
        identifier?_addShorthand hfits]
      exact .refl _
    | defaulted hk _ _ =>
      rw [Concrete.occurrences_node hk hwrap, Concrete.occurrences_node hk hwrap,
        identifier?_add hfits]
      exact .refl _
    | node hk hshape _ _ =>
      rw [Concrete.occurrences_node hk hwrap, Concrete.occurrences_node hk hwrap,
        identifier?_add hfits, Node.identifier?_of_ne hshape]
      exact .refl _

end

/-- Lowering accounts for the names of a tree whose names are leaves, if there are ids for all
nodes. -/
theorem accounted_lowerNode (d : Document) {t : Concrete} (ht : t.NamesAreLeaves)
    (parent : Option String) (a : Arena) (hfits : (lowerNode d parent t a).1.size ≤ 2 ^ 32) :
    Accounted d a (lowerNode d parent t a) (t.occurrences ⟨parent, false⟩)
      (t.occurrences ⟨parent, true⟩) := by
  refine (lowering_induction_of_fits d
    (P := fun parent t a r => t.NamesAreLeaves → r.2.length = 1 ∧
      Accounted d a r (t.occurrences ⟨parent, false⟩) (t.occurrences ⟨parent, true⟩))
    (Q := fun parent cs a r => (∀ c ∈ cs, c.NamesAreLeaves) → AccountedIn d parent cs a r)
    ?_ ?_ ?_ ?_ ?_ t parent a hfits ht).2
  · exact fun parent a _ => .nil d parent a
  · intro _ c cs _ _ hc ih hcs
    exact .skip hc (ih fun c' hc' => hcs c' (List.mem_cons_of_mem c hc'))
  · intro _ c cs _ _ _ hc hnode ih hcs
    obtain ⟨hlen, hnode⟩ := hnode (hcs c List.mem_cons_self)
    exact .cons hc hlen hnode (ih fun c' hc' => hcs c' (List.mem_cons_of_mem c hc'))
  · intro parent h cs a r hwrap ih ht
    have hr := ih ht.child
    rw [Concrete.occurrences_wrapper hwrap, Concrete.occurrences_wrapper hwrap]
    simp only [Concrete.isWrapper, Bool.and_eq_true, beq_iff_eq] at hwrap
    exact ⟨hr.length.trans hwrap.2, hr.toAccounted⟩
  · intro parent h cs a r added hwrap hfits ih hadd ht
    exact ⟨rfl, (ih ht.child).adds hwrap (fun hk => ht.children_eq hk) hadd hfits⟩

/-! ### No identifiers but those of names -/

/-- All identifiers of an arena pass a test. -/
def IdentifiersPass (p : String × Range → Prop) (a : Arena) : Prop :=
  ∀ n ∈ a, ∀ x, n.identifier? = some x → p x

section

variable {p : String × Range → Prop} {a : Arena}

theorem IdentifiersPass.push (ha : IdentifiersPass p a) {n : Node}
    (hn : ∀ x, n.identifier? = some x → p x) : IdentifiersPass p (a.push n) :=
  Arena.forall_mem_push ha hn

/-- What is added are the name at the node and, for a shorthand member with a default, an identifier that
is there already. -/
theorem IdentifiersPass.adds {d : Document} {parent : Option String} {h : Heading}
    {cs : List Concrete} {ids : List NodeId} {added : Arena × NodeId} (ha : IdentifiersPass p a)
    (hname : h.kind ∈ Concrete.nameKinds → p (d.slice h.span, d.range h.span))
    (hadd : Adds d parent h cs ids a added) : IdentifiersPass p added.1 := by
  have hself : h.kind ∈ Concrete.nameKinds → ∀ x,
      Node.identifier? ⟨.identifier (d.slice h.span), d.range h.span, []⟩ = some x → p x :=
    fun hk x hx => Option.some.inj hx ▸ hname hk
  cases hadd with
  | identifier hk _ => exact ha.push (hself hk)
  | member hk _ => exact ((ha.push (hself hk)).push (hself hk)).push nofun
  | @defaulted sides name at' below _ _ hget =>
    have hassign : IdentifiersPass p (a.push (assignment d h ids sides)) := ha.push nofun
    have hleft := hassign ⟨.identifier name, at', below⟩ (Array.mem_of_getElem? hget)
    have hkey : ∀ x, Node.identifier? ⟨.identifier name, at', []⟩ = some x → p x := hleft
    exact (hassign.push hkey).push nofun
  | node _ hshape _ _ =>
    refine ha.push fun x hx => ?_
    rw [Node.identifier?_of_ne hshape] at hx
    cases hx

end

/-- Every identifier of the lowered tree, reached or not, is that of a name. -/
theorem exists_counts_of_identifier? (text : List Char) (t : Concrete) {n : Node}
    (hn : n ∈ (lower text t).nodes) {x : String × Range} (hx : n.identifier? = some x) :
    ∃ u, t.Counts u ∧ u.heading.kind ∈ Concrete.nameKinds ∧
      ((Document.ofText text).slice u.heading.span,
        (Document.ofText text).range u.heading.span) = x := by
  let p : String × Range → Prop := fun x => ∃ u, t.Counts u ∧ u.heading.kind ∈ Concrete.nameKinds ∧
    ((Document.ofText text).slice u.heading.span, (Document.ofText text).range u.heading.span) = x
  have hpass : IdentifiersPass p (lowerNode (.ofText text) none t #[]).1 :=
    forall_mem_lowerNode
      (T := fun c => ∀ u, c.Counts u → u.heading.kind ∈ Concrete.nameKinds →
        p ((Document.ofText text).slice u.heading.span, (Document.ofText text).range u.heading.span))
      (fun _ _ ht c hc hsig u hu => ht u (.descend hc hsig hu))
      (fun _ _ _ _ _ _ ht hadd ha => IdentifiersPass.adds ha (ht _ .self) hadd)
      (fun u hu hk => ⟨u, hu, hk, rfl⟩) none fun n hn => absurd hn (Array.not_mem_empty n)
  exact hpass n hn x hx

/-! ### Shares -/

private theorem exists_map_eq_of_perm {α β : Type} {f : α → β} {xs : List α} {ys : List β}
    (h : (xs.map f).Perm ys) : ∃ xs' : List α, xs'.map f = ys ∧ xs'.Perm xs := by
  have hmap : List.Forall₂ (fun y x => f x = y) (xs.map f) xs :=
    List.forall₂_map_left_iff.2 (List.forall₂_same.2 fun _ _ => rfl)
  obtain ⟨xs', hxs', hp⟩ := List.perm_comp_forall₂ h.symm hmap
  have heq : List.Forall₂ Eq ys (xs'.map f) :=
    List.forall₂_map_right_iff.2 (hxs'.imp fun _ _ h => h.symm)
  rw [List.forall₂_eq_eq_eq] at heq
  exact ⟨xs', heq.symm, hp⟩

/-- Values that are those of some sources, each as often as it has copies, fall into one share for
each source. -/
theorem exists_shares {α β γ : Type} {f : α → β} {xs : List α} {sources : List γ}
    {copies : γ → Nat} {g : γ → β}
    (h : (xs.map f).Perm (sources.flatMap fun s => List.replicate (copies s) (g s))) :
    ∃ shares : List (List α), List.Forall₂
      (fun s share => share.length = copies s ∧ ∀ x ∈ share, f x = g s) sources shares ∧
      shares.flatten.Perm xs := by
  obtain ⟨xs', hmap, hperm⟩ := exists_map_eq_of_perm h
  suffices hs : ∃ shares : List (List α), List.Forall₂
      (fun s share => share.length = copies s ∧ ∀ x ∈ share, f x = g s) sources shares ∧
      shares.flatten = xs' by
    obtain ⟨shares, hs, hflat⟩ := hs
    exact ⟨shares, hs, hflat ▸ hperm⟩
  clear h hperm
  induction sources generalizing xs' with
  | nil => exact ⟨[], .nil, (List.map_eq_nil_iff.1 hmap).symm⟩
  | cons s sources ih =>
    rw [List.flatMap_cons, List.map_eq_append_iff] at hmap
    obtain ⟨share, rest, rfl, hshare, hrest⟩ := hmap
    obtain ⟨shares, hs, hflat⟩ := ih rest hrest
    have hlen : share.length = copies s := by
      simpa only [List.length_map, List.length_replicate] using congrArg List.length hshare
    rw [← hlen, List.map_eq_replicate_iff] at hshare
    exact ⟨share :: shares, .cons ⟨hlen, hshare⟩ hs, by rw [List.flatten_cons, hflat]⟩

/-! ### The identifiers of a lowered tree -/

/-- The ids of the identifiers of a tree. -/
def Tree.identifierIds (t : Tree) : List NodeId :=
  ((List.range t.size).map UInt32.ofNat).filter fun i => (t.identifier? i).isSome

section

variable {t : Tree}

theorem Tree.mem_identifierIds {i : NodeId} : i ∈ t.identifierIds ↔ (t.identifier? i).isSome := by
  rw [identifierIds, List.mem_filter]
  refine and_iff_right_of_imp fun h => List.mem_map.2 ⟨i.toNat, ?_, UInt32.ofNat_toNat⟩
  obtain ⟨x, hx⟩ := Option.isSome_iff_exists.1 h
  obtain ⟨below, hn⟩ := identifier?_eq_some_iff.1 hx
  exact List.mem_range.2 (Array.getElem?_eq_some_iff.1 hn).1

theorem toNat_ofNat_of_fits (hfits : t.size ≤ 2 ^ 32) {i : Nat} (hi : i < t.size) :
    (UInt32.ofNat i).toNat = i := UInt32.toNat_ofNat_of_lt' (Nat.lt_of_lt_of_le hi hfits)

theorem Tree.nodup_identifierIds (hfits : t.size ≤ 2 ^ 32) : t.identifierIds.Nodup := by
  refine (List.Nodup.map_on (fun i hi j hj heq => ?_) List.nodup_range).filter _
  rw [← toNat_ofNat_of_fits hfits (List.mem_range.1 hi), heq,
    toNat_ofNat_of_fits hfits (List.mem_range.1 hj)]

theorem Tree.map_identifierIds (hfits : t.size ≤ 2 ^ 32) :
    t.identifierIds.map t.identifier? = t.identifiers.map some := by
  have hnodes : ((List.range t.size).map UInt32.ofNat).map t.identifier? =
      t.nodes.toList.map Node.identifier? := by
    refine List.ext_getElem (by simp [Tree.size]) fun i hi hi' => ?_
    have hlt : i < t.size := by simpa [Tree.size] using hi'
    simp [Tree.identifier?, Tree.get?, toNat_ofNat_of_fits hfits hlt,
      Array.getElem?_eq_getElem (show i < t.nodes.size from hlt)]
  have hfilter := List.filter_map (f := t.identifier?) (p := Option.isSome)
    (l := (List.range t.size).map UInt32.ofNat)
  rw [identifiers, List.map_filterMap_some_eq_filter_map_isSome, ← hnodes, hfilter]
  rfl

theorem Tree.mem_identifiers_iff (hfits : t.size ≤ 2 ^ 32) {x : String × Range} :
    x ∈ t.identifiers ↔ ∃ i, t.identifier? i = some x := by
  rw [← List.mem_map_of_injective (Option.some_injective _), ← map_identifierIds hfits, List.mem_map]
  refine exists_congr fun i => ?_
  rw [mem_identifierIds]
  exact and_iff_right_of_imp fun h => Option.isSome_of_eq_some h

end

theorem Occurrence.copies_pos (o : Occurrence) : 0 < o.copies := by
  unfold copies
  split <;> decide

theorem mem_written {d : Document} {os : List Occurrence} {x : String × Range} :
    x ∈ written d os ↔ ∃ o ∈ os, o.written d = x := by
  simp only [written, List.mem_flatMap, List.mem_replicate, eq_comm (a := x)]
  exact exists_congr fun o => and_congr_right fun _ => and_iff_right (Nat.ne_of_gt o.copies_pos)

theorem Concrete.exists_mem_names_iff {t : Concrete} {d : Document} {x : String × Range} :
    (∃ o ∈ t.names, o.written d = x) ↔ ∃ u, t.Counts u ∧ u.heading.kind ∈ nameKinds ∧
      (d.slice u.heading.span, d.range u.heading.span) = x := by
  constructor
  · rintro ⟨o, ho, hx⟩
    obtain ⟨u, hu, hh, hk⟩ := exists_mem_occurrences_iff.1 ⟨o, ho, rfl⟩
    rw [Occurrence.written, ← hh] at hx
    exact ⟨u, hu, hh ▸ hk, hx⟩
  · rintro ⟨u, hu, hk, hx⟩
    obtain ⟨o, ho, hh⟩ := exists_mem_occurrences_iff.2 ⟨u, hu, rfl, hk⟩
    rw [← hh] at hx
    exact ⟨o, ho, hx⟩

/-- The identifiers of the lowered tree are those that its names become, if there are ids for all
nodes. -/
theorem identifiers_lower (text : List Char) {t : Concrete} (ht : t.NamesAreLeaves)
    (hfits : (lower text t).size ≤ 2 ^ 32) :
    (lower text t).identifiers.Perm (written (.ofText text) t.names) :=
  (accounted_lowerNode (.ofText text) ht none #[] hfits).found

/-- Lowering invents no identifier, and if it comes to no more than `2 ^ 32` nodes it loses no name: each
one is reached, and the reachable identifiers fall into one share for each name that counts, which holds
the name once, or twice if it is key and value. -/
theorem lower_names (text : List Char) {t : Concrete} (ht : t.NamesAreLeaves) :
    (∀ i x, (lower text t).identifier? i = some x →
      ∃ u, t.Counts u ∧ u.heading.kind ∈ Concrete.nameKinds ∧
        ((Document.ofText text).slice u.heading.span,
          (Document.ofText text).range u.heading.span) = x) ∧
    ((lower text t).size ≤ 2 ^ 32 →
      (∀ u, t.Counts u → u.heading.kind ∈ Concrete.nameKinds →
        ∃ i, (lower text t).Reaches i ∧ (lower text t).identifier? i =
          some ((Document.ofText text).slice u.heading.span,
            (Document.ofText text).range u.heading.span)) ∧
      ∃ shares : List (List NodeId),
        List.Forall₂ (fun o ids => ids.length = o.copies ∧
          ∀ i ∈ ids, (lower text t).identifier? i = some (o.written (.ofText text))) t.names shares ∧
        shares.flatten.Nodup ∧
        ∀ i, i ∈ shares.flatten ↔
          (lower text t).Reaches i ∧ ((lower text t).identifier? i).isSome) := by
  refine ⟨fun i x hx => ?_, fun hfits => ?_⟩
  · obtain ⟨below, hn⟩ := Tree.identifier?_eq_some_iff.1 hx
    exact exists_counts_of_identifier? text t (Array.mem_of_getElem? hn) rfl
  have hforest := forest_lower text ht hfits
  have hperm := identifiers_lower text ht hfits
  have hreach : ∀ {i x}, (lower text t).identifier? i = some x → (lower text t).Reaches i := by
    intro i x hx
    obtain ⟨below, hn⟩ := Tree.identifier?_eq_some_iff.1 hx
    exact hforest.reaches (Array.getElem?_eq_some_iff.1 hn).1
  constructor
  · intro u hu hk
    have hname := (Concrete.exists_mem_names_iff (d := .ofText text)).2 ⟨u, hu, hk, rfl⟩
    have hwritten := mem_written.2 hname
    obtain ⟨i, hi⟩ := (Tree.mem_identifiers_iff hfits).1 (hperm.mem_iff.2 hwritten)
    exact ⟨i, hreach hi, hi⟩
  · have hids : ((lower text t).identifierIds.map (lower text t).identifier?).Perm
        (t.names.flatMap fun o => List.replicate o.copies (some (o.written (.ofText text)))) := by
      rw [Tree.map_identifierIds hfits]
      simpa only [written, List.map_flatMap, List.map_replicate] using hperm.map some
    obtain ⟨shares, hs, hflat⟩ := exists_shares hids
    refine ⟨shares, hs, hflat.nodup_iff.2 (Tree.nodup_identifierIds hfits), fun i => ?_⟩
    rw [hflat.mem_iff, Tree.mem_identifierIds]
    refine (and_iff_right_of_imp fun h => ?_).symm
    obtain ⟨x, hx⟩ := Option.isSome_iff_exists.1 h
    exact hreach hx

open Destructuring in
/-- Of the names in `({é, b = 1, c: d} = {e})`, those without a colon become two identifiers. -/
theorem lower_names_destructuring : tree.NamesAreLeaves ∧ (lower text tree).size ≤ 2 ^ 32 ∧
    tree.names.map (fun o => ((o.written (.ofText text)).1, o.copies)) =
      [("é", 2), ("b", 2), ("c", 1), ("d", 1), ("e", 2)] ∧
    ∃ shares : List (List NodeId), shares.map List.length = [2, 2, 1, 1, 2] ∧
      shares.flatten.Nodup ∧ ∀ i, i ∈ shares.flatten ↔
        (lower text tree).Reaches i ∧ ((lower text tree).identifier? i).isSome := by
  have hfits : (lower text tree).size ≤ 2 ^ 32 := by decide +kernel
  have hnames : tree.names.map (fun o => ((o.written (.ofText text)).1, o.copies)) =
      [("é", 2), ("b", 2), ("c", 1), ("d", 1), ("e", 2)] := by
    decide +kernel
  obtain ⟨-, shares, hs, hnodup, hmem⟩ := (lower_names text namesAreLeaves_tree).2 hfits
  have hlengths : tree.names.map Occurrence.copies = shares.map List.length := by
    have := List.forall₂_map_left_iff.2 (List.forall₂_map_right_iff.2 (hs.imp fun _ _ h => h.1.symm))
    rwa [List.forall₂_eq_eq_eq] at this
  refine ⟨namesAreLeaves_tree, hfits, hnames, shares, ?_, hnodup, hmem⟩
  rw [← hlengths]
  exact List.map_map.symm.trans (congrArg (List.map Prod.snd) hnames)

namespace Members

/-- If the object gets the id of the first member, the names that are reached stand in this member. -/
theorem range_of_reaches {m : Nat} (hm : 0 < m) (text : List Char)
    (hroot : (lower text (tree m)).root = 2) {i : NodeId} {x : String × Range}
    (hi : (lower text (tree m)).Reaches i) (hx : (lower text (tree m)).identifier? i = some x) :
    x.2 = (Document.ofText text).range ⟨1, 2⟩ := by
  have hmem : i ∈ first.ids := (shaped_lower hm text hroot).mem_ids hi
  have hfirst : ∀ {i n}, (Arena.tree (addShorthand (.ofText text) #[] ⟨1, 2⟩).1).get? i = some n →
      (lower text (tree m)).identifier? i = n.identifier? := fun h => by
    rw [Tree.identifier?, get?_lower hm text h, Option.bind_some]
  rw [first] at hmem
  simp only [Outline.ids, Outline.idsOf, List.mem_cons, List.nil_append, List.append_nil,
    List.cons_append, List.not_mem_nil, or_false] at hmem
  obtain rfl | rfl | rfl := hmem
  · cases (hfirst rfl).symm.trans hx
  · cases (hfirst rfl).symm.trans hx
    rfl
  · cases (hfirst rfl).symm.trans hx
    rfl

theorem range_second_ne {m : Nat} (hm : 1 < m) : (Document.ofText (text m)).range ⟨3, 4⟩ ≠
    (Document.ofText (text m)).range ⟨1, 2⟩ := by
  intro h
  have hstart : (LineIndex.ofText (text m)).position (text m) 3 =
    (LineIndex.ofText (text m)).position (text m) 1 := congrArg Range.start h
  have hlt := LineIndex.position_lt (boundary_text (m := m) (i := 1) (by omega))
    (boundary_text (m := m) (i := 3) (by omega)) (by decide) (by decide)
  rw [hstart, Position.lt_iff] at hlt
  omega

end Members

open Members in
/-- An object with so many members has more nodes than there are ids, and gets the id of its first
member.  So the name in the second member is not reached. -/
theorem lower_loses_name_members : (tree count).NamesAreLeaves ∧
    ∃ u, (tree count).Counts u ∧ u.heading.kind ∈ Concrete.nameKinds ∧
      ¬ ∃ i, (lower (text count) (tree count)).Reaches i ∧
        (lower (text count) (tree count)).identifier? i =
          some ((Document.ofText (text count)).slice u.heading.span,
            (Document.ofText (text count)).range u.heading.span) := by
  have hroot : (lower (text count) (tree count)).root = 2 := root_lower count _
  refine ⟨namesAreLeaves_tree count, member 1, ?_, by decide, ?_⟩
  · exact .descend (List.mem_map_of_mem (List.mem_range.2 (by decide))) rfl .self
  · rintro ⟨i, hi, hx⟩
    have hspan : (member 1).heading.span = ⟨3, 4⟩ := rfl
    rw [hspan] at hx
    exact range_second_ne (by decide) (range_of_reaches (by decide) (text count) hroot hi hx)

end AnySpans.Syntax
