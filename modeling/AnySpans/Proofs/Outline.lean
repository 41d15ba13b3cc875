import AnySpans.Proofs.Lines
import AnySpans.Syntax.Walk

/-!
# Outlines of trees

The arena of a `Tree` says of each node only what its children are.  An `Outline` is the tree that a
walk sees below a node; `Outline.Of` says that it is the one of an arena.  An arena is tree-shaped
when its root has an outline without repeated ids (`Tree.Shaped`).

`Outline.select` chooses identifiers along an outline: the parents it looks at are those on the way
down, not those noted in a table.  By `select_touching`, looking only at the nodes that touch a set
of lines finds, among all chosen identifiers, exactly those that touch it.
-/

namespace AnySpans.Text.Range

open AnySpans.Lines

/-- The first line does not come after the last. -/
def Forward (r : Range) : Prop := r.start.line ≤ r.stop.line

/-- The lines of one range are among those of another. -/
def LinesWithin (r s : Range) : Prop := s.start.line ≤ r.start.line ∧ r.stop.line ≤ s.stop.line

/-- Whether a range touches a set of lines. -/
def touches (set : IntervalSet) (r : Range) : Bool :=
  match r.lines with
  | .ok lines => set.intersects lines
  | .error _ => false

variable {r s u : Range}

theorem lines_of_forward (h : r.Forward) : r.lines = .ok ⟨r.start.line, r.stop.line, h⟩ := dif_pos h

theorem LinesWithin.trans (h : r.LinesWithin s) (h' : s.LinesWithin u) : r.LinesWithin u :=
  ⟨Nat.le_trans h'.1 h.1, Nat.le_trans h.2 h'.2⟩

theorem LinesWithin.refl : r.LinesWithin r := ⟨Nat.le_refl _, Nat.le_refl _⟩

theorem touches_iff {set : IntervalSet} : r.touches set = true ↔
    ∃ line ∈ set, (r.start.line ≤ line ∧ line ≤ r.stop.line) ∧ line < limit := by
  unfold touches
  by_cases h : r.Forward
  · rw [lines_of_forward h]
    exact set.intersects_iff _
  · have he : r.lines = .error .reversed := dif_neg h
    rw [he]
    simp only [Bool.false_eq_true, false_iff, not_exists, not_and]
    unfold Forward at h
    omega

theorem LinesWithin.touches {set : IntervalSet} (h : r.LinesWithin s)
    (ht : r.touches set = true) : s.touches set = true := by
  obtain ⟨line, hset, hline, hlim⟩ := touches_iff.1 ht
  obtain ⟨hstart, hstop⟩ := h
  exact touches_iff.2 ⟨line, hset, by omega, hlim⟩

end AnySpans.Text.Range

namespace AnySpans.Syntax

open AnySpans.Lines AnySpans.Text

/-- The nodes below a node, by their ids. -/
inductive Outline where
  | node (id : NodeId) (children : List Outline)

namespace Outline

/-- Induction over outlines: what holds of a node whenever it holds of its children. -/
@[induction_eliminator]
theorem induction {motive : Outline → Prop}
    (node : ∀ id cs, (∀ c ∈ cs, motive c) → motive (.node id cs)) : ∀ o, motive o
  | .node id cs => node id cs fun c _ => induction node c

/-- The node at the top. -/
def id : Outline → NodeId
  | node id _ => id

mutual

/-- All nodes, each before those below it. -/
def ids : Outline → List NodeId
  | node id cs => id :: idsOf cs

/-- All nodes of some outlines. -/
def idsOf : List Outline → List NodeId
  | [] => []
  | c :: cs => ids c ++ idsOf cs

end

mutual

/-- The children of each node are those it has in the tree. -/
def Of (t : Tree) : Outline → Prop
  | node id cs => (∃ n, t.get? id = some n ∧ n.children = cs.map Outline.id) ∧ AllOf t cs

/-- Each outline is one of the tree. -/
def AllOf (t : Tree) : List Outline → Prop
  | [] => True
  | c :: cs => Of t c ∧ AllOf t cs

end

theorem id_mem_ids (o : Outline) : o.id ∈ o.ids := by
  cases o
  exact List.mem_cons_self

theorem mem_idsOf {i : NodeId} {cs : List Outline} : i ∈ idsOf cs ↔ ∃ c ∈ cs, i ∈ c.ids := by
  induction cs with
  | nil => simp [idsOf]
  | cons c cs ih => simp [idsOf, ih]

theorem sublist_idsOf {c : Outline} {cs : List Outline} (h : c ∈ cs) :
    c.ids.Sublist (idsOf cs) := by
  induction cs with
  | nil => cases h
  | cons d ds ih =>
    obtain rfl | h := List.mem_cons.1 h
    · exact List.sublist_append_left _ _
    · exact (ih h).trans (List.sublist_append_right _ _)

theorem allOf_iff {t : Tree} {cs : List Outline} : AllOf t cs ↔ ∀ c ∈ cs, c.Of t := by
  induction cs with
  | nil => simp [AllOf]
  | cons c cs ih => simp [AllOf, ih]

theorem Of.child {t : Tree} {id : NodeId} {cs : List Outline} (h : (node id cs).Of t)
    {c : Outline} (hc : c ∈ cs) : c.Of t := allOf_iff.1 h.2 c hc

theorem Of.exists_node {t : Tree} {id : NodeId} {cs : List Outline} (h : (node id cs).Of t) :
    ∃ n, t.get? id = some n ∧ n.children = cs.map Outline.id := h.1

theorem Of.exists_get? {t : Tree} {o : Outline} (h : o.Of t) : ∃ n, t.get? o.id = some n := by
  cases o
  obtain ⟨n, hn, -⟩ := h.exists_node
  exact ⟨n, hn⟩

theorem idsOf_append (os os' : List Outline) : idsOf (os ++ os') = idsOf os ++ idsOf os' := by
  induction os with
  | nil => rfl
  | cons o os ih => rw [List.cons_append, idsOf, idsOf, ih, List.append_assoc]

theorem idsOf_perm {os os' : List Outline} (h : os.Perm os') : (idsOf os).Perm (idsOf os') := by
  induction h with
  | nil => exact .refl _
  | cons o _ ih => exact ih.append_left o.ids
  | swap o o' os =>
    simp only [idsOf, ← List.append_assoc]
    exact List.perm_append_comm.append_right _
  | trans _ _ ih ih' => exact ih.trans ih'

/-- Outlines without repeated ids that share no node have no repeated ids together. -/
theorem nodup_idsOf {os : List Outline} (h : ∀ o ∈ os, o.ids.Nodup)
    (hd : os.Pairwise fun o o' => ∀ i ∈ o.ids, i ∉ o'.ids) : (idsOf os).Nodup := by
  induction os with
  | nil => exact .nil
  | cons o os ih =>
    obtain ⟨ho, hd⟩ := List.pairwise_cons.1 hd
    have hos := ih (fun o' ho' => h o' (List.mem_cons_of_mem o ho')) hd
    refine List.nodup_append'.2 ⟨h o List.mem_cons_self, hos, fun i hi hi' => ?_⟩
    obtain ⟨o', ho', hi'⟩ := mem_idsOf.1 hi'
    exact ho o' ho' i hi hi'

theorem Of.exists_of_mem {t : Tree} {o : Outline} (h : o.Of t) {i : NodeId} (hi : i ∈ o.ids) :
    ∃ n, t.get? i = some n := by
  induction o with
  | node id cs ih =>
    obtain rfl | hi := List.mem_cons.1 hi
    · obtain ⟨n, hn, -⟩ := h.exists_node
      exact ⟨n, hn⟩
    · obtain ⟨c, hc, hi⟩ := mem_idsOf.1 hi
      exact ih c hc (h.child hc) hi

theorem Of.child_mem {t : Tree} {o : Outline} (h : o.Of t) {i : NodeId} (hi : i ∈ o.ids)
    {n : Node} (hn : t.get? i = some n) {c : NodeId} (hc : c ∈ n.children) : c ∈ o.ids := by
  induction o with
  | node id cs ih =>
    obtain rfl | hi := List.mem_cons.1 hi
    · obtain ⟨m, hm, hcs⟩ := h.exists_node
      obtain rfl : m = n := Option.some.inj (hm.symm.trans hn)
      obtain ⟨o, ho, rfl⟩ := List.mem_map.1 (hcs ▸ hc)
      exact List.mem_cons_of_mem _ (mem_idsOf.2 ⟨o, ho, o.id_mem_ids⟩)
    · obtain ⟨o, ho, hi⟩ := mem_idsOf.1 hi
      exact List.mem_cons_of_mem _ (mem_idsOf.2 ⟨o, ho, ih o ho (h.child ho) hi⟩)

/-- An outline stays one of a tree that has more nodes. -/
theorem Of.extend {t t' : Tree} {o : Outline} (h : o.Of t)
    (ht : ∀ i n, t.get? i = some n → t'.get? i = some n) : o.Of t' := by
  induction o with
  | node id cs ih =>
    obtain ⟨n, hn, hcs⟩ := h.exists_node
    exact ⟨⟨n, ht id n hn, hcs⟩, allOf_iff.2 fun c hc => ih c hc (h.child hc)⟩

/-! ### Choosing identifiers -/

/-- Whether a node is a plain key of an object that is taken apart at once, the nodes above it being
`ancestors`, the nearest first. -/
def namesSlot (t : Tree) (id : NodeId) : (ancestors : List NodeId) → Bool
  | property :: object :: holder :: _ =>
    hasPlainKey t property id && t.isObjectExpression object && takesApart t holder object
  | _ => false

/-- The candidate at a node itself. -/
def own (t : Tree) (ancestors : List NodeId) (id : NodeId) (n : Node) : List Candidate :=
  match n.shape with
  | .identifier name => if namesSlot t id ancestors then [] else [⟨id, name, n.range⟩]
  | _ => []

mutual

/-- The chosen identifiers in document order; nodes that are not wanted are left out with all below
them. -/
def select (t : Tree) (wanted : Range → Bool) (ancestors : List NodeId) : Outline → List Candidate
  | node id cs =>
    match t.get? id with
    | some n =>
      if wanted n.range then own t ancestors id n ++ selectAll t wanted (id :: ancestors) cs else []
    | none => []

/-- The chosen identifiers of some outlines below the same nodes. -/
def selectAll (t : Tree) (wanted : Range → Bool) (ancestors : List NodeId) :
    List Outline → List Candidate
  | [] => []
  | c :: cs => select t wanted ancestors c ++ selectAll t wanted ancestors cs

end

variable {t : Tree} {wanted : Range → Bool} {ancestors : List NodeId}

theorem mem_own {id : NodeId} {n : Node} {c : Candidate} (h : c ∈ own t ancestors id n) :
    c.range = n.range := by
  unfold own at h
  split at h
  · split at h
    · cases h
    · cases List.mem_singleton.1 h
      rfl
  · cases h

theorem mem_selectAll {c : Candidate} {cs : List Outline} :
    c ∈ selectAll t wanted ancestors cs ↔ ∃ o ∈ cs, c ∈ o.select t wanted ancestors := by
  induction cs with
  | nil => simp [selectAll]
  | cons o cs ih => simp [selectAll, ih]

/-- The chosen identifiers that pass a test, when the test commutes with the choice below each of
the outlines. -/
theorem selectAll_filter {p : Candidate → Bool} {wanted' : Range → Bool} {cs : List Outline}
    (h : ∀ o ∈ cs, o.select t wanted' ancestors = (o.select t wanted ancestors).filter p) :
    selectAll t wanted' ancestors cs = (selectAll t wanted ancestors cs).filter p := by
  induction cs with
  | nil => rfl
  | cons o cs ih =>
    rw [selectAll, selectAll, List.filter_append, h o List.mem_cons_self,
      ih fun o' ho' => h o' (List.mem_cons_of_mem o ho')]

end Outline

/-! ### Lines along an outline -/

/-- The nodes with the given ids have their lines in order and hold those of their children. -/
structure Tree.Layered (t : Tree) (ids : List NodeId) : Prop where
  forward : ∀ id ∈ ids, ∀ n, t.get? id = some n → n.range.Forward
  within : ∀ id ∈ ids, ∀ n, t.get? id = some n → ∀ c ∈ n.children, ∀ m, t.get? c = some m →
    m.range.LinesWithin n.range

theorem Tree.Layered.mono {t : Tree} {ids ids' : List NodeId} (h : t.Layered ids)
    (hs : ids' ⊆ ids) : t.Layered ids' :=
  ⟨fun id hid => h.forward id (hs hid), fun id hid => h.within id (hs hid)⟩

namespace Outline

variable {t : Tree} {wanted : Range → Bool}

/-- The lines along an outline stay as they are in a tree that has more nodes. -/
theorem Of.layered_extend {o : Outline} (h : o.Of t) (hl : t.Layered o.ids) {t' : Tree}
    (ht : ∀ i n, t.get? i = some n → t'.get? i = some n) : t'.Layered o.ids := by
  have hback : ∀ i ∈ o.ids, ∀ n, t'.get? i = some n → t.get? i = some n := by
    intro i hi n hn
    obtain ⟨m, hm⟩ := h.exists_of_mem hi
    rw [hm, ← ht i m hm, hn]
  refine ⟨fun i hi n hn => hl.forward i hi n (hback i hi n hn), fun i hi n hn c hc m hm => ?_⟩
  have hn := hback i hi n hn
  exact hl.within i hi n hn c hc m (hback c (h.child_mem hi hn hc) m hm)

theorem ids_subset_of_mem {id : NodeId} {cs : List Outline} {c : Outline} (h : c ∈ cs) :
    c.ids ⊆ (node id cs).ids := fun _ hi =>
  List.mem_cons_of_mem id ((sublist_idsOf h).subset hi)

/-- An identifier chosen below a node lies on its lines. -/
theorem linesWithin_of_mem_select {o : Outline} {n : Node} (hof : o.Of t) (hl : t.Layered o.ids)
    (hn : t.get? o.id = some n) {ancestors : List NodeId} {c : Candidate}
    (hc : c ∈ o.select t wanted ancestors) : c.range.LinesWithin n.range := by
  induction o generalizing n ancestors with
  | node id cs ih =>
    obtain ⟨n', hn', hcs⟩ := hof.exists_node
    obtain rfl : n' = n := Option.some.inj (hn'.symm.trans hn)
    rw [select, hn'] at hc
    dsimp only at hc
    split at hc
    · obtain hc | hc := List.mem_append.1 hc
      · rw [mem_own hc]
        exact .refl
      · obtain ⟨o, ho, hc⟩ := mem_selectAll.1 hc
        obtain ⟨m, hm⟩ := (hof.child ho).exists_get?
        have hmem : o.id ∈ n'.children := hcs ▸ List.mem_map_of_mem ho
        exact (ih o ho (hof.child ho) (hl.mono (ids_subset_of_mem ho)) hm hc).trans
          (hl.within id (id_mem_ids _) n' hn' o.id hmem m hm)
    · cases hc

/-- Leaving out what does not touch a set of lines leaves, of all chosen identifiers, those that
touch it. -/
theorem select_touching (set : IntervalSet) {o : Outline} (hof : o.Of t) (hl : t.Layered o.ids)
    (ancestors : List NodeId) :
    o.select t (Range.touches set) ancestors =
      (o.select t (fun _ => true) ancestors).filter fun c => c.range.touches set := by
  induction o generalizing ancestors with
  | node id cs ih =>
    obtain ⟨n, hn, -⟩ := hof.exists_node
    by_cases ht : n.range.touches set = true
    · have hall := selectAll_filter (p := fun c => c.range.touches set) fun o ho =>
        ih o ho (hof.child ho) (hl.mono (ids_subset_of_mem ho)) (id :: ancestors)
      have hown : (own t ancestors id n).filter (fun c => c.range.touches set) =
          own t ancestors id n :=
        List.filter_eq_self.2 fun c hc => by rw [mem_own hc, ht]
      simp only [select, hn, ht, if_true, List.filter_append, hown, hall]
    · have hnone : (select t (fun _ => true) ancestors (node id cs)).filter
          (fun c => c.range.touches set) = [] :=
        List.filter_eq_nil_iff.2 fun c hc hct =>
          ht ((linesWithin_of_mem_select hof hl hn hc).touches hct)
      rw [hnone]
      simp only [select, hn, ht, if_false, Bool.false_eq_true]

end Outline

end AnySpans.Syntax
