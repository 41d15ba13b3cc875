import AnySpans.Proofs.Settling
import AnySpans.Proofs.WellFormed

/-!
# The first flaw of a tree

`Concrete.firstFlaw` skips what is below nodes whose flag says that there is no flaw.  Where the flags
tell the truth (`Concrete.Flagged`), it finds the first flawed node of all in document order
(`firstFlaw_eq_find?`); so does a search that keeps the trees still to be visited on a stack
(`searchWithin_eq`).  Where nodes lie in order (`Concrete.InOrder`), they start one after another
(`InOrder.pairwise_starts`), so a document is never refused for a place behind its first flaw
(`first_flaw_leftmost`).
-/

namespace AnySpans.Syntax

open AnySpans.Lines AnySpans.Text AnySpans.Vue

namespace Concrete

variable {h : Heading} {cs stack : List Concrete} {c t u v : Concrete} {byte n : Nat}

/-- A node that is itself flawed. -/
def isFlaw (t : Concrete) : Bool := t.heading.flaw.isSome

/-- The flag of every node tells whether the node or one below it is flawed. -/
def Flagged (t : Concrete) : Prop :=
  ∀ u ∈ t.nodes, u.heading.flawed = true ↔ ∃ v ∈ u.nodes, v.isFlaw = true

instance (t : Concrete) : Decidable t.Flagged :=
  inferInstanceAs (Decidable (∀ u ∈ t.nodes, _ ↔ _))

theorem Flagged.child (ht : (node h cs).Flagged) (hc : c ∈ cs) : c.Flagged :=
  fun u hu => ht u (mem_nodes_of_child hc hu)

theorem Flagged.flawed_iff (ht : t.Flagged) : t.heading.flawed = true ↔ ∃ v ∈ t.nodes, v.isFlaw = true :=
  ht t t.mem_nodes_self

/-! ### Document order -/

theorem firstFlawIn_eq_findSome? : firstFlawIn cs = cs.findSome? firstFlaw := by
  induction cs with
  | nil => rfl
  | cons c cs ih =>
    rw [firstFlawIn, List.findSome?_cons]
    cases c.firstFlaw with
    | none => exact ih
    | some byte => rfl

theorem firstFlawIn_append (cs ds : List Concrete) :
    firstFlawIn (cs ++ ds) = (firstFlawIn cs).or (firstFlawIn ds) := by
  simp only [firstFlawIn_eq_findSome?, List.findSome?_append]

theorem firstFlawIn_of_children
    (h : ∀ c ∈ cs, c.firstFlaw = (c.nodes.find? isFlaw).map (·.heading.span.start)) :
    firstFlawIn cs = ((nodesOf cs).find? isFlaw).map (·.heading.span.start) := by
  induction cs with
  | nil => rfl
  | cons c cs ih =>
    have hc := h c List.mem_cons_self
    have ih := ih fun d hd => h d (List.mem_cons_of_mem c hd)
    rw [firstFlawIn, nodesOf, List.find?_append, hc, ih]
    cases c.nodes.find? isFlaw with
    | none => rfl
    | some u => rfl

/-- The search finds the start of the first flawed node in document order. -/
theorem firstFlaw_eq_find? (ht : t.Flagged) :
    t.firstFlaw = (t.nodes.find? isFlaw).map (·.heading.span.start) := by
  induction t with
  | node h cs ih =>
    rw [firstFlaw, nodes]
    by_cases hflaw : h.flaw.isSome = true
    · rw [if_pos hflaw, List.find?_cons_of_pos (show (node h cs).isFlaw = true from hflaw)]
      rfl
    · rw [if_neg hflaw, List.find?_cons_of_neg (show ¬ (node h cs).isFlaw = true from hflaw)]
      have hchildren := firstFlawIn_of_children fun c hc => ih c hc (ht.child hc)
      split
      · exact hchildren
      · rename_i hflawed
        -- no node below is flawed, so the search has nothing to miss
        have hnone : (nodesOf cs).find? isFlaw = none := List.find?_eq_none.2 fun v hv hflaw' =>
          hflawed (ht.flawed_iff.2 ⟨v, List.mem_cons_of_mem _ hv, hflaw'⟩)
        rw [hnone]
        rfl

/-- Nothing is found exactly if the flag of the whole tree says that there is no flaw. -/
theorem firstFlaw_eq_none_iff (ht : t.Flagged) : t.firstFlaw = none ↔ t.heading.flawed = false := by
  rw [firstFlaw_eq_find? ht, Option.map_eq_none_iff, List.find?_eq_none, ← Bool.not_eq_true,
    ht.flawed_iff]
  simp only [not_exists, not_and]

/-! ### Searching with a stack -/

/-- Puts trees on a stack one after another, the first one last. -/
def pushTrees (cs stack : List Concrete) : List Concrete :=
  cs.reverse.foldl (fun stack c => c :: stack) stack

theorem pushTrees_eq (cs stack : List Concrete) : pushTrees cs stack = cs ++ stack := by
  simp [pushTrees]

/-- One turn of a search takes the tree on top of the stack.  It ends the search with an answer, or
leaves a stack. -/
def searchTurn : List Concrete → Option Nat ⊕ List Concrete
  | [] => .inl none
  | node h cs :: stack =>
    if h.flaw.isSome then .inl (some h.span.start)
    else if h.flawed then .inr (pushTrees cs stack)
    else .inr stack

/-- The answer of a search that ends within so many turns. -/
def searchWithin : Nat → List Concrete → Option (Option Nat)
  | 0, _ => none
  | n + 1, stack =>
    match searchTurn stack with
    | .inl answer => some answer
    | .inr stack => searchWithin n stack

theorem nodesOf_append (cs ds : List Concrete) : nodesOf (cs ++ ds) = nodesOf cs ++ nodesOf ds := by
  induction cs with
  | nil => rfl
  | cons c cs ih => rw [List.cons_append, nodesOf, nodesOf, ih, List.append_assoc]

/-- Each turn takes a node off the stack for good, so a search ends; its answer is the first flaw of
the trees on the stack. -/
theorem searchWithin_eq (hn : (nodesOf stack).length < n) :
    searchWithin n stack = some (firstFlawIn stack) := by
  induction n generalizing stack with
  | zero => exact absurd hn (Nat.not_lt_zero _)
  | succ n ih =>
    cases stack with
    | nil => rfl
    | cons t stack =>
      obtain ⟨h, cs⟩ := t
      have hlength : (nodesOf cs).length + (nodesOf stack).length < n := by
        simp only [nodesOf, nodes, List.cons_append, List.length_cons, List.length_append] at hn
        omega
      rw [searchWithin, searchTurn, firstFlawIn, firstFlaw]
      by_cases hflaw : h.flaw.isSome = true
      · rw [if_pos hflaw, if_pos hflaw]
      · rw [if_neg hflaw, if_neg hflaw]
        by_cases hflawed : h.flawed = true
        · have hpushed : (nodesOf (pushTrees cs stack)).length < n := by
            rw [pushTrees_eq, nodesOf_append, List.length_append]
            exact hlength
          rw [if_pos hflawed, if_pos hflawed]
          dsimp only
          rw [ih hpushed, pushTrees_eq, firstFlawIn_append]
          cases firstFlawIn cs <;> rfl
        · rw [if_neg hflawed, if_neg hflawed]
          exact ih (by omega)

/-! ### Nodes in order -/

/-- Nodes hold their children, which follow one another. -/
structure InOrder (t : Concrete) : Prop where
  nested : t.Nested
  apart : ∀ u ∈ t.nodes,
    u.children.Pairwise fun c c' => c.heading.span.stop ≤ c'.heading.span.start

theorem InOrder.child (ht : (node h cs).InOrder) (hc : c ∈ cs) :
    c.InOrder ∧ c.heading.span.Within h.span := by
  obtain ⟨hwithin, hnested⟩ := nestedIn_iff.1 ht.nested.2 c hc
  exact ⟨⟨hnested, fun u hu => ht.apart u (mem_nodes_of_child hc hu)⟩, hwithin⟩

/-- Every node starts and ends within the tree. -/
theorem InOrder.bounds (ht : t.InOrder) (hu : u ∈ t.nodes) :
    t.heading.span.start ≤ u.heading.span.start ∧ u.heading.span.start ≤ u.heading.span.stop ∧
      u.heading.span.stop ≤ t.heading.span.stop := by
  induction t with
  | node h cs ih =>
    obtain rfl | hu := List.mem_cons.1 hu
    · exact ⟨Nat.le_refl _, ht.nested.1, Nat.le_refl _⟩
    · obtain ⟨c, hc, hu⟩ := mem_nodesOf.1 hu
      obtain ⟨hcOrder, hstart, hstop⟩ := ht.child hc
      obtain ⟨h₁, h₂, h₃⟩ := ih c hc hcOrder hu
      exact ⟨Nat.le_trans hstart h₁, h₂, Nat.le_trans h₃ hstop⟩

theorem pairwise_starts_nodesOf
    (hchildren : ∀ c ∈ cs, c.InOrder ∧
      c.nodes.Pairwise fun u v => u.heading.span.start ≤ v.heading.span.start)
    (hapart : cs.Pairwise fun c c' => c.heading.span.stop ≤ c'.heading.span.start) :
    (nodesOf cs).Pairwise fun u v => u.heading.span.start ≤ v.heading.span.start := by
  induction hapart with
  | nil => exact .nil
  | @cons c cs hfirst _ ih =>
    obtain ⟨hc, hpairwise⟩ := hchildren c List.mem_cons_self
    have hrest := fun d hd => hchildren d (List.mem_cons_of_mem c hd)
    refine List.pairwise_append.2 ⟨hpairwise, ih hrest, fun u hu v hv => ?_⟩
    obtain ⟨d, hd, hv⟩ := mem_nodesOf.1 hv
    have hcd := hfirst d hd
    have hu := hc.bounds hu
    have hv := (hrest d hd).1.bounds hv
    omega

/-- In document order nodes start one after another. -/
theorem InOrder.pairwise_starts (ht : t.InOrder) :
    t.nodes.Pairwise fun u v => u.heading.span.start ≤ v.heading.span.start := by
  induction t with
  | node h cs ih =>
    refine List.pairwise_cons.2 ⟨fun u hu => ?_, ?_⟩
    · exact (ht.bounds (List.mem_cons_of_mem _ hu)).1
    · exact pairwise_starts_nodesOf (fun c hc => ⟨(ht.child hc).1, ih c hc (ht.child hc).1⟩)
        (ht.apart _ (mem_nodes_self _))

/-- What is found is a flawed node with none before it, and no flaw starts before that one. -/
theorem exists_of_firstFlaw (hflagged : t.Flagged) (hordered : t.InOrder)
    (hbyte : t.firstFlaw = some byte) :
    (∃ before u after, t.nodes = before ++ u :: after ∧ (∀ v ∈ before, v.isFlaw = false) ∧
        u.isFlaw = true ∧ u.heading.span.start = byte) ∧
      ∀ v ∈ t.nodes, v.isFlaw = true → byte ≤ v.heading.span.start := by
  rw [firstFlaw_eq_find? hflagged] at hbyte
  obtain ⟨u, hfind, rfl⟩ := Option.map_eq_some_iff.1 hbyte
  obtain ⟨hu, before, after, hnodes, hbefore⟩ := List.find?_eq_some_iff_append.1 hfind
  simp only [Bool.not_eq_true'] at hbefore
  refine ⟨⟨before, u, after, hnodes, hbefore, hu, rfl⟩, fun v hv hflaw => ?_⟩
  have hstarts := hordered.pairwise_starts
  rw [hnodes] at hv hstarts
  obtain hv | hv := List.mem_append.1 hv
  · cases (hbefore v hv).symm.trans hflaw
  · obtain rfl | hv := List.mem_cons.1 hv
    · exact Nat.le_refl _
    · exact (List.pairwise_cons.1 (List.pairwise_append.1 hstarts).2.1).1 v hv

end Concrete

/-! ### Where documents are refused -/

/-- What reads the documents of a dialect. -/
def Readers.reader (readers : Readers) : Dialect → List Char → Reading Concrete
  | .tsx => readers.markup
  | _ => readers.plain

/-- What is read last for a document: its text, or the mask of a component from which no more
expressions are given up. -/
def Readers.lastShown (readers : Readers) (text : List Char) : Dialect → List Char
  | .vue =>
    match ((Mask.ofText text (scriptBlocks text)).attempts readers.plain).getLast? with
    | some (m, _) => m.render
    | none => text
  | _ => text

theorem exists_last_attempt {α : Type} (read : List Char → Reading α) (m : Mask) : ∃ n : Mask,
    (m.attempts read).getLast? = some (n, read n.render) ∧ m.settle read = read n.render := by
  induction m using Mask.settle_induction read with
  | settled m h => exact ⟨m, by rw [Mask.attempts_of_settled h]; rfl, Mask.settle_of_settled h⟩
  | next m byte m' hread hdrop ih =>
    obtain ⟨n, hlast, hsettle⟩ := ih
    refine ⟨n, ?_, (Mask.settle_of_dropAt hread hdrop).trans hsettle⟩
    rw [Mask.attempts_of_dropAt hread hdrop, List.getLast?_cons, hlast, Option.getD_some]

/-- What becomes of a document is decided by what is read last. -/
theorem Readers.parse_eq_outcome (readers : Readers) {dialect : Dialect} {text : List Char}
    (hscripts : dialect = .vue → scriptBlocks text ≠ []) :
    readers.parse dialect text =
      outcome text (readers.reader dialect (readers.lastShown text dialect)) := by
  cases dialect with
  | typeScript => rfl
  | tsx => rfl
  | vue =>
    obtain ⟨n, hlast, hsettle⟩ :=
      exists_last_attempt readers.plain (Mask.ofText text (scriptBlocks text))
    rw [parse_component readers (hscripts rfl), hsettle, lastShown, hlast]
    rfl

section

variable {parser : List Char → Option Concrete} {cs : List Char} {t : Concrete}

theorem readWith_of_firstFlaw {byte : Nat} (hread : parser cs = some t) (ht : t.Flagged)
    (hbyte : t.firstFlaw = some byte) : readWith parser cs = .refused byte := by
  have hflawed : t.heading.flawed = true := by
    rw [← Bool.not_eq_false, ← Concrete.firstFlaw_eq_none_iff ht, hbyte]
    nofun
  rw [readWith, hread]
  dsimp only
  rw [if_pos hflawed, hbyte, Option.getD_some]

theorem readWith_of_faultless (hread : parser cs = some t) (ht : t.Flagged)
    (hnone : t.firstFlaw = none) : readWith parser cs = .accepted t := by
  have hflawed := (Concrete.firstFlaw_eq_none_iff ht).1 hnone
  rw [readWith, hread]
  dsimp only
  rw [hflawed, if_neg Bool.false_ne_true]

end

/-- In a tree with true flags whose nodes lie in order, the search for a flaw ends, and finds none
exactly if the tree is not flagged.  Otherwise it finds the first flawed node in document order, and no
flawed node starts before that one.  Whatever parser made the tree, a document whose last tree this is
becomes a tree exactly if nothing is found, and else is refused for the position of what is found. -/
theorem first_flaw_leftmost {t : Concrete} (hflagged : t.Flagged) (hordered : t.InOrder) :
    (∀ n, t.nodes.length < n → Concrete.searchWithin n [t] = some t.firstFlaw) ∧
      (t.firstFlaw = none ↔ t.heading.flawed = false) ∧
      (∀ byte, t.firstFlaw = some byte →
        (∃ before u after, t.nodes = before ++ u :: after ∧ (∀ v ∈ before, v.isFlaw = false) ∧
          u.isFlaw = true ∧ u.heading.span.start = byte) ∧
        ∀ v ∈ t.nodes, v.isFlaw = true → byte ≤ v.heading.span.start ∧
          ∀ text, Boundary text byte → Boundary text v.heading.span.start →
            v.heading.span.start ≤ limit →
            (LineIndex.ofText text).position text byte ≤
              (LineIndex.ofText text).position text v.heading.span.start) ∧
      ∀ (readers : Readers) (parser : List Char → Option Concrete) (dialect : Dialect)
        (text : List Char), readers.reader dialect = readWith parser →
        (dialect = .vue → scriptBlocks text ≠ []) →
        parser (readers.lastShown text dialect) = some t →
        (t.firstFlaw = none → readers.parse dialect text = .ok (lower text t)) ∧
          ∀ byte, t.firstFlaw = some byte → readers.parse dialect text =
            .error (.malformed ((LineIndex.ofText text).position text byte)) := by
  refine ⟨fun n hn => ?_, Concrete.firstFlaw_eq_none_iff hflagged, fun byte hbyte => ?_,
    fun readers parser dialect text hreader hscripts hread =>
      ⟨fun hnone => ?_, fun byte hbyte => ?_⟩⟩
  · have hlength : (Concrete.nodesOf [t]).length < n := by
      rw [Concrete.nodesOf, Concrete.nodesOf, List.append_nil]
      exact hn
    rw [Concrete.searchWithin_eq hlength, Concrete.firstFlawIn_eq_findSome?, List.findSome?_singleton]
  · obtain ⟨hfirst, hleast⟩ := Concrete.exists_of_firstFlaw hflagged hordered hbyte
    refine ⟨hfirst, fun v hv hflaw => ⟨hleast v hv hflaw, fun text hstart hstart' hlimit => ?_⟩⟩
    exact LineIndex.position_le hstart hstart' (hleast v hv hflaw) hlimit
  · rw [readers.parse_eq_outcome hscripts, hreader, readWith_of_faultless hread hflagged hnone]
    rfl
  · rw [readers.parse_eq_outcome hscripts, hreader, readWith_of_firstFlaw hread hflagged hbyte]
    rfl

namespace Concrete

private def leaf (flaw : Option Flaw) (start stop : Nat) : Concrete :=
  .node ⟨"token", false, false, flaw, flaw.isSome, ⟨start, stop⟩, []⟩ []

/-- A tree of two statements, the second of which lacks a token and has text that fits no rule. -/
def brokenStatement : Concrete :=
  .node ⟨"program", true, false, none, true, ⟨0, 9⟩, []⟩
    [.node ⟨"statement", true, false, none, false, ⟨0, 4⟩, []⟩ [leaf none 0 3, leaf none 3 4],
      .node ⟨"statement", true, false, none, true, ⟨4, 9⟩, []⟩
        [leaf none 4 6, leaf (some .missing) 6 6, leaf (some .error) 7 9]]

end Concrete

/-- The token that is missing comes first, though it holds no text. -/
theorem first_flaw_leftmost_missing :
    Concrete.brokenStatement.Flagged ∧ Concrete.brokenStatement.InOrder ∧
      Concrete.searchWithin 9 [Concrete.brokenStatement] = some (some 6) ∧
      Concrete.brokenStatement.firstFlaw ≠ none ∧
      ∀ v ∈ Concrete.brokenStatement.nodes, v.isFlaw = true → 6 ≤ v.heading.span.start := by
  have hflagged : Concrete.brokenStatement.Flagged := by decide
  have hordered : Concrete.brokenStatement.InOrder := by
    refine ⟨?_, by decide⟩
    simp [Concrete.Nested, Concrete.NestedIn, Concrete.heading, Span.Within,
      Concrete.brokenStatement, Concrete.leaf]
  have hfirst : Concrete.brokenStatement.firstFlaw = some 6 := by decide
  obtain ⟨hends, hnone, hsome, -⟩ := first_flaw_leftmost hflagged hordered
  refine ⟨hflagged, hordered, hfirst ▸ hends 9 (by decide), fun h => ?_, fun v hv hflaw => ?_⟩
  · exact absurd (hnone.1 h) (by decide)
  · exact ((hsome 6 hfirst).2 v hv hflaw).1

end AnySpans.Syntax
