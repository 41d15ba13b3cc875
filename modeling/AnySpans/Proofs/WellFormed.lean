import AnySpans.Proofs.Forests
import AnySpans.Proofs.Offsets
import Mathlib.Data.List.Count

/-!
# Well-formed trees

A tree is `WellFormed` when its root comes last, every other node is a child of one later node, once,
the ids inside of shapes are those of children, and the range of a node holds those of its children.
If the spans of the concrete tree do not cut characters and hold those below them (`Concrete.Placed`),
lowering yields a well-formed tree just when there is an id for each of its nodes
(`lower_wellFormed`).

A walk over a whole tree goes from node to node as `Outline.arrivals` says (`walkFrom_none`), to none
of them twice, and in a forest to all of them (`Tree.Shaped.perm_arrivals`).
-/

namespace AnySpans.Text

theorem Position.le_refl (p : Position) : p ≤ p := .inr ⟨rfl, Nat.le_refl _⟩

theorem Position.le_trans {p q r : Position} (h : p ≤ q) (h' : q ≤ r) : p ≤ r := by
  rw [Position.le_iff] at h h' ⊢
  omega

theorem Position.le_antisymm {p q : Position} (h : p ≤ q) (h' : q ≤ p) : p = q := by
  rw [Position.le_iff] at h h'
  have hline : p.line = q.line := by omega
  have hcharacter : p.character = q.character := by omega
  cases p
  cases q
  exact congrArg₂ Position.mk hline hcharacter

/-- The places of one range are among those of another. -/
def Range.Within (r s : Range) : Prop := s.start ≤ r.start ∧ r.stop ≤ s.stop

theorem Range.Within.refl (r : Range) : r.Within r := ⟨Position.le_refl _, Position.le_refl _⟩

theorem Range.Within.trans {r s u : Range} (h : r.Within s) (h' : s.Within u) : r.Within u :=
  ⟨Position.le_trans h'.1 h.1, Position.le_trans h.2 h'.2⟩

/-- A span of a text that cuts no character. -/
structure Span.Cuts (text : List Char) (s : Span) : Prop where
  start : Boundary text s.start
  stop : Boundary text s.stop
  forward : s.start ≤ s.stop

end AnySpans.Text

namespace AnySpans.Syntax

open AnySpans.Lines AnySpans.Text

section

variable {text : List Char} {s u : Span} (hsize : byteLength text ≤ limit)

include hsize

theorem Document.range_within (hs : s.Cuts text) (hu : u.Cuts text) (h : s.Within u) :
    ((Document.ofText text).range s).Within ((Document.ofText text).range u) :=
  ⟨LineIndex.position_le hu.start hs.start h.1 (Nat.le_trans hs.start.le hsize),
    LineIndex.position_le hs.stop hu.stop h.2 (Nat.le_trans hu.stop.le hsize)⟩

theorem Document.range_forward (hs : s.Cuts text) :
    ((Document.ofText text).range s).start ≤ ((Document.ofText text).range s).stop :=
  LineIndex.position_le hs.start hs.stop hs.forward (Nat.le_trans hs.stop.le hsize)

end

namespace Concrete

/-- The spans of a tree lie in a text, cut no character and hold those below them. -/
structure Placed (text : List Char) (t : Concrete) : Prop where
  nested : t.Nested
  boundary : ∀ u ∈ t.nodes, Boundary text u.heading.span.start ∧ Boundary text u.heading.span.stop

theorem Placed.cuts {text : List Char} {t : Concrete} (ht : t.Placed text) :
    t.heading.span.Cuts text := by
  obtain ⟨hstart, hstop⟩ := ht.boundary t t.mem_nodes_self
  cases t
  exact ⟨hstart, hstop, ht.nested.1⟩

theorem Placed.child {text : List Char} {h : Heading} {cs : List Concrete}
    (ht : (node h cs).Placed text) : ∀ c ∈ cs, c.Placed text ∧ c.heading.span.Within h.span := by
  intro c hc
  obtain ⟨hwithin, hnested⟩ := nestedIn_iff.1 ht.nested.2 c hc
  exact ⟨⟨hnested, fun u hu => ht.boundary u (mem_nodes_of_child hc hu)⟩, hwithin⟩

end Concrete

/-! ### Ranges in arenas -/

/-- Every node of an arena covers a span of the text. -/
def Covered (text : List Char) (a : Arena) : Prop :=
  ∀ n ∈ a, ∃ s : Span, s.Cuts text ∧ n.range = (Document.ofText text).range s

/-- In every node of an arena the ids inside of the shape are those of children. -/
def Linked (a : Arena) : Prop := ∀ n ∈ a, n.links ⊆ n.children

/-- The nodes with some ids are in the arena, within a range. -/
def HeldBy (a : Arena) (ids : List NodeId) (r : Range) : Prop :=
  ∀ i ∈ ids, ∃ n, a.tree.get? i = some n ∧ n.range.Within r

/-- Every node of an arena holds its children. -/
def Holding (a : Arena) : Prop := ∀ n ∈ a, HeldBy a n.children n.range

section

variable {text : List Char} {d : Document} {a a' : Arena} {ids ids' : List NodeId} {r r' : Range}
  {parent : Option String} {h : Heading} {cs : List Concrete} {added : Arena × NodeId}

theorem Covered.empty (text : List Char) : Covered text #[] :=
  fun _ hn => absurd hn (Array.not_mem_empty _)

theorem Covered.push (ha : Covered text a) {s : Span} (hs : s.Cuts text) (shape : Shape)
    (ids : List NodeId) : Covered text (a.push ⟨shape, (Document.ofText text).range s, ids⟩) :=
  Arena.forall_mem_push ha ⟨s, hs, rfl⟩

/-- What is added covers the span of the node; the key of a shorthand member with a default covers what
the name on the left covers. -/
theorem Covered.adds (ha : Covered text a) (hs : h.span.Cuts text)
    (hadd : Adds (.ofText text) parent h cs ids a added) : Covered text added.1 := by
  cases hadd with
  | identifier _ _ => exact ha.push hs _ _
  | member _ _ => exact ((ha.push hs _ _).push hs _ _).push hs _ _
  | @defaulted sides name at' below _ _ hget =>
    have hassign := ha.push hs (.assignmentPattern sides.1 sides.2) ids
    obtain ⟨s, hcuts, hrange⟩ := hassign _ (Array.mem_of_getElem? hget)
    obtain rfl : at' = (Document.ofText text).range s := hrange
    exact (hassign.push hcuts _ _).push hs _ _
  | node _ _ _ _ => exact ha.push hs _ _

/-- All nodes that a placed tree becomes cover spans of the text. -/
theorem covered_lowerNode {t : Concrete} (ht : t.Placed text) (parent : Option String)
    (ha : Covered text a) : Covered text (lowerNode (.ofText text) parent t a).1 :=
  forall_mem_lowerNode (T := Concrete.Placed text) (fun _ _ ht c hc _ => (ht.child c hc).1)
    (fun _ _ _ _ _ _ ht hadd ha => Covered.adds ha ht.cuts hadd) ht parent ha

theorem Linked.empty : Linked #[] := fun _ hn => absurd hn (Array.not_mem_empty _)

theorem Linked.push (ha : Linked a) {n : Node} (hn : n.links ⊆ n.children) : Linked (a.push n) :=
  Arena.forall_mem_push ha hn

theorem Linked.adds (ha : Linked a) (hadd : Adds d parent h cs ids a added) : Linked added.1 := by
  cases hadd with
  | identifier _ _ => exact ha.push (List.nil_subset _)
  | member _ _ =>
    exact ((ha.push (List.nil_subset _)).push (List.nil_subset _)).push (List.Subset.refl _)
  | defaulted _ hsides _ =>
    exact ((ha.push (links_assignment hsides)).push (List.nil_subset _)).push (List.Subset.refl _)
  | node _ _ hlinks _ => exact ha.push hlinks

/-- In all nodes that a tree becomes the ids inside of shapes are those of children. -/
theorem linked_lowerNode (t : Concrete) (parent : Option String) (ha : Linked a) :
    Linked (lowerNode d parent t a).1 :=
  forall_mem_lowerNode (T := fun _ => True) (fun _ _ _ _ _ _ => trivial)
    (fun _ _ _ _ _ _ _ hadd ha => Linked.adds ha hadd) trivial parent ha

theorem HeldBy.keep (h : HeldBy a ids r)
    (hk : ∀ i n, a.tree.get? i = some n → a'.tree.get? i = some n) : HeldBy a' ids r := by
  intro i hi
  obtain ⟨n, hn, hr⟩ := h i hi
  exact ⟨n, hk i n hn, hr⟩

theorem HeldBy.within (h : HeldBy a ids r) (hr : r.Within r') : HeldBy a ids r' := by
  intro i hi
  obtain ⟨n, hn, hn'⟩ := h i hi
  exact ⟨n, hn, hn'.trans hr⟩

theorem HeldBy.nil (a : Arena) (r : Range) : HeldBy a [] r := fun _ hi => absurd hi List.not_mem_nil

theorem HeldBy.append (h : HeldBy a ids r) (h' : HeldBy a ids' r) : HeldBy a (ids ++ ids') r :=
  fun i hi => (List.mem_append.1 hi).elim (h i) (h' i)

theorem HeldBy.pair {i j : NodeId} (h : HeldBy a [i] r) (h' : HeldBy a [j] r) :
    HeldBy a [i, j] r := h.append h'

theorem heldBy_push (hfits : a.size < 2 ^ 32) (shape : Shape) (r : Range) (ids : List NodeId) :
    HeldBy (a.push ⟨shape, r, ids⟩) [a.nextId] r := by
  intro i hi
  rw [List.mem_singleton.1 hi]
  exact ⟨_, Arena.get?_nextId hfits _, .refl r⟩

theorem Holding.empty : Holding #[] := fun _ hn => absurd hn (Array.not_mem_empty _)

theorem Holding.push (ha : Holding a) (shape : Shape) (hids : HeldBy a ids r) :
    Holding (a.push ⟨shape, r, ids⟩) :=
  Arena.forall_mem_push (fun n hn => (ha n hn).keep fun _ _ => Arena.get?_push)
    (hids.keep fun _ _ => Arena.get?_push)

/-- Adding a node over nodes that it holds. -/
theorem Holding.adds (ha : Holding a) (hids : HeldBy a ids (d.range h.span))
    (hadd : Adds d parent h cs ids a added) (hfits : added.1.size ≤ 2 ^ 32) :
    Holding added.1 ∧ HeldBy added.1 [added.2] (d.range h.span) := by
  cases hadd with
  | identifier _ _ =>
    rw [addIdentifier, Arena.add, Array.size_push] at hfits
    exact ⟨ha.push _ (.nil _ _), heldBy_push hfits _ _ _⟩
  | member _ _ =>
    simp only [addShorthand, addIdentifier, Arena.add, Array.size_push] at hfits
    have hkey := ha.push (.identifier (d.slice h.span)) (.nil a (d.range h.span))
    have hvalue := hkey.push (.identifier (d.slice h.span)) (.nil _ (d.range h.span))
    have hfirst := heldBy_push (a := a) (by omega) (.identifier (d.slice h.span)) (d.range h.span) []
    have hsecond := heldBy_push (a := a.push ⟨.identifier (d.slice h.span), d.range h.span, []⟩)
      (by rw [Array.size_push]; omega) (.identifier (d.slice h.span)) (d.range h.span) []
    exact ⟨hvalue.push _ (.pair (hfirst.keep fun _ _ => Arena.get?_push) hsecond),
      heldBy_push (by simp only [Array.size_push]; omega) _ _ _⟩
  | @defaulted sides name at' below _ hsides hget =>
    simp only [Arena.add, Array.size_push] at hfits
    -- the key covers what the name on the left covers
    obtain ⟨n, hn, hwithin⟩ := hids _ (mem_of_sides? hsides).1
    obtain rfl := Option.some.inj (hget.symm.trans (Arena.get?_push hn))
    have hassign := ha.push (.assignmentPattern sides.1 sides.2) hids
    have hkey := hassign.push (.identifier name) (.nil _ at')
    have hfirst := heldBy_push (a := a) (by omega) (.assignmentPattern sides.1 sides.2)
      (d.range h.span) ids
    have hsecond := heldBy_push (a := a.push (assignment d h ids sides))
      (by rw [Array.size_push]; omega) (.identifier name) at' []
    exact ⟨hkey.push _ (.pair (hsecond.within hwithin) (hfirst.keep fun _ _ => Arena.get?_push)),
      heldBy_push (by simp only [Array.size_push]; omega) _ _ _⟩
  | node _ _ _ _ =>
    rw [Arena.add, Array.size_push] at hfits
    exact ⟨ha.push _ hids, heldBy_push hfits _ _ _⟩

/-- In what a placed tree becomes all nodes hold their children, and the node of the tree covers no
more than the tree, if there are ids for all nodes. -/
theorem holding_lowerNode {t : Concrete} (ht : t.Placed text) (hsize : byteLength text ≤ limit)
    (parent : Option String) (ha : Holding a)
    (hfits : (lowerNode (.ofText text) parent t a).1.size ≤ 2 ^ 32) :
    Holding (lowerNode (.ofText text) parent t a).1 ∧
      HeldBy (lowerNode (.ofText text) parent t a).1 (lowerNode (.ofText text) parent t a).2
        ((Document.ofText text).range t.heading.span) := by
  refine (lowering_induction_of_fits (.ofText text)
    (P := fun _ t a r => t.Placed text → Holding a → Grows a r ∧ Holding r.1 ∧
      HeldBy r.1 r.2 ((Document.ofText text).range t.heading.span))
    (Q := fun _ cs a r => ∀ s : Span, s.Cuts text →
      (∀ c ∈ cs, c.Placed text ∧ c.heading.span.Within s) → Holding a →
      Grows a r ∧ Holding r.1 ∧ HeldBy r.1 r.2 ((Document.ofText text).range s))
    ?_ ?_ ?_ ?_ ?_ t parent a hfits ht ha).2
  · exact fun _ a _ _ _ ha => ⟨.nil a, ha, .nil a _⟩
  · exact fun _ c _ _ _ _ ih s hs hcs ha =>
      ih s hs (fun c' hc' => hcs c' (List.mem_cons_of_mem c hc')) ha
  · intro _ c cs a r r' _ hnode ih s hs hcs ha
    obtain ⟨hc, hwithin⟩ := hcs c List.mem_cons_self
    obtain ⟨hgrows, ha, hheld⟩ := hnode hc ha
    obtain ⟨hgrows', ha, hheld'⟩ := ih s hs (fun c' hc' => hcs c' (List.mem_cons_of_mem c hc')) ha
    have hheld := (hheld.within (Document.range_within hsize hc.cuts hs hwithin)).keep hgrows'.keeps
    exact ⟨hgrows.append hgrows', ha, hheld.append hheld'⟩
  · exact fun _ h cs a r _ ih ht ha => ih h.span ht.cuts ht.child ha
  · intro parent h cs a r added _ hfits ih hadd ht ha
    obtain ⟨hgrows, ha, hheld⟩ := ih h.span ht.cuts ht.child ha
    exact ⟨hgrows.adds hadd, ha.adds hheld hadd hfits⟩

end

/-! ### Walking everything -/

/-- A walk comes to a node through a parent and visits it. -/
def Walk.arrive (t : Tree) (w : Walk) (step : Option NodeId × NodeId) : Walk :=
  match t.get? step.2 with
  | some n => (w.enter step.1 step.2).visit t step.2 n
  | none => w.enter step.1 step.2

namespace Outline

mutual

/-- The nodes in the order in which a walk comes to them, each with the parent it comes through. -/
def arrivals (parent : Option NodeId) : Outline → List (Option NodeId × NodeId)
  | node id cs => (parent, id) :: arrivalsOf (some id) cs

/-- The nodes of some outlines below one parent. -/
def arrivalsOf (parent : Option NodeId) : List Outline → List (Option NodeId × NodeId)
  | [] => []
  | c :: cs => arrivals parent c ++ arrivalsOf parent cs

end

/-- A walk comes to all nodes of an outline. -/
theorem map_snd_arrivals (o : Outline) (parent : Option NodeId) :
    (o.arrivals parent).map Prod.snd = o.ids := by
  induction o generalizing parent with
  | node id cs ih =>
    have hall : (arrivalsOf (some id) cs).map Prod.snd = idsOf cs := by
      induction cs with
      | nil => rfl
      | cons c cs ihcs =>
        rw [arrivalsOf, List.map_append, ih c List.mem_cons_self,
          ihcs fun c' hc' => ih c' (List.mem_cons_of_mem c hc'), idsOf]
    rw [arrivals, List.map_cons, hall, ids]

end Outline

section

variable {t : Tree}

theorem foldlM_walkFrom_none {id : NodeId} {depth : Nat} {cs : List Outline}
    (h : ∀ c ∈ cs, ∀ w, walkFrom t none depth (some id) c.id w =
      .ok ((c.arrivals (some id)).foldl (Walk.arrive t) w)) (w : Walk) :
    (cs.map Outline.id).foldlM (fun w c => walkFrom t none depth (some id) c w) w =
      .ok ((Outline.arrivalsOf (some id) cs).foldl (Walk.arrive t) w) := by
  induction cs generalizing w with
  | nil => rfl
  | cons c cs ih =>
    rw [List.map_cons, List.foldlM_cons, h c List.mem_cons_self, Outline.arrivalsOf,
      List.foldl_append]
    exact ih (fun c' hc' => h c' (List.mem_cons_of_mem c hc')) _

/-- A walk over everything comes to the nodes of an outline one after the other; it goes no deeper
than there are nodes. -/
theorem walkFrom_none {o : Outline} (hof : o.Of t) {depth : Nat} (hdepth : o.ids.length ≤ depth)
    (parent : Option NodeId) (w : Walk) : walkFrom t none depth parent o.id w =
      .ok ((o.arrivals parent).foldl (Walk.arrive t) w) := by
  induction o generalizing depth parent w with
  | node id cs ih =>
    obtain ⟨n, hn, hchildren⟩ := hof.exists_node
    obtain ⟨depth, rfl⟩ : ∃ d, depth = d + 1 :=
      Nat.exists_eq_add_one.2 (Nat.lt_of_lt_of_le (Nat.succ_pos _) hdepth)
    have hbelow : ∀ c ∈ cs, ∀ w, walkFrom t none depth (some id) c.id w =
        .ok ((c.arrivals (some id)).foldl (Walk.arrive t) w) := fun c hc w =>
      ih c hc (hof.child hc) (Nat.le_trans (Outline.sublist_idsOf hc).length_le
        (Nat.le_of_succ_le_succ hdepth)) (some id) w
    have harrive : w.arrive t (parent, id) = (w.enter parent id).visit t id n := by
      simp only [Walk.arrive, hn]
    simp only [Outline.id, walkFrom, hn, isWanted, hchildren, Outline.arrivals, List.foldl_cons,
      harrive]
    exact foldlM_walkFrom_none hbelow _

theorem Walk.visited_arrive {step : Option NodeId × NodeId} (h : ∃ n, t.get? step.2 = some n)
    (w : Walk) : (w.arrive t step).visited = w.visited + 1 := by
  obtain ⟨n, hn⟩ := h
  have henter : (w.enter step.1 step.2).visited = w.visited := by
    unfold enter
    split <;> rfl
  simp only [arrive, hn, visit]
  rw [← henter]
  split
  · split <;> rfl
  · rfl

theorem Walk.visited_foldl_arrive {steps : List (Option NodeId × NodeId)}
    (h : ∀ step ∈ steps, ∃ n, t.get? step.2 = some n) (w : Walk) :
    (steps.foldl (Walk.arrive t) w).visited = w.visited + steps.length := by
  induction steps generalizing w with
  | nil => rfl
  | cons step steps ih =>
    rw [List.foldl_cons, ih (fun s hs => h s (List.mem_cons_of_mem step hs)),
      visited_arrive (h step List.mem_cons_self), List.length_cons, Nat.add_right_comm, Nat.add_assoc]

/-- An order in which a walk over everything comes to nodes, to none of them twice, however deep it may
go. -/
def Tree.WalkedIn (t : Tree) (order : List (Option NodeId × NodeId)) : Prop :=
  (order.map Prod.snd).Nodup ∧ ∀ depth, t.size ≤ depth → ∀ w,
    walkFrom t none depth none t.root w = .ok (order.foldl (Walk.arrive t) w)

namespace Tree.Shaped

variable {o : Outline}

theorem walkedIn (h : t.Shaped o) : t.WalkedIn (o.arrivals none) := by
  refine ⟨?_, fun depth hdepth w => ?_⟩
  · rw [o.map_snd_arrivals none]
    exact h.2.2
  · rw [← h.1]
    exact walkFrom_none h.2.1 (h.length_le.trans hdepth) none w

/-- A walk over everything counts the nodes it comes to. -/
theorem exists_visited (h : t.Shaped o) :
    ∃ s, findIdentifiers t none = .ok s ∧ s.visited = (o.arrivals none).length := by
  have hsize : t.isEmpty = false :=
    beq_eq_false_iff_ne.2 (Nat.ne_of_gt (Nat.zero_lt_of_lt (h.2.1.lt_size o.id o.id_mem_ids)))
  have hnode : ∀ step ∈ o.arrivals none, ∃ n, t.get? step.2 = some n := fun step hstep => by
    have hid := List.mem_map_of_mem (f := Prod.snd) hstep
    rw [Outline.map_snd_arrivals] at hid
    exact ⟨_, Array.getElem?_eq_getElem (h.2.1.lt_size _ hid)⟩
  refine ⟨_, by rw [findIdentifiers, hsize, h.walkedIn.2 _ (Nat.le_succ _)]; rfl, ?_⟩
  exact (Walk.visited_foldl_arrive hnode _).trans (Nat.zero_add _)

/-- A walk over a forest with one top comes to all nodes. -/
theorem perm_arrivals (h : t.Shaped o) (hforest : Forest t.nodes [t.root]) :
    ((o.arrivals none).map fun step => step.2.toNat).Perm (List.range t.size) := by
  have hids : ((o.arrivals none).map fun step => step.2.toNat) = o.ids.map UInt32.toNat := by
    rw [← o.map_snd_arrivals none, List.map_map]
    rfl
  have hnodup := h.2.2.map fun i j => UInt32.toNat_inj.1
  rw [hids, List.perm_ext_iff_of_nodup hnodup List.nodup_range]
  intro i
  rw [List.mem_range]
  constructor
  · intro hi
    obtain ⟨j, hj, rfl⟩ := List.mem_map.1 hi
    exact h.2.1.lt_size j hj
  · intro hi
    have hid : (UInt32.ofNat i).toNat = i :=
      UInt32.toNat_ofNat_of_lt' (Nat.lt_of_lt_of_le hi hforest.size_le)
    exact List.mem_map.2 ⟨_, h.mem_ids (hforest.reaches (hid.symm ▸ hi)), hid⟩

end Tree.Shaped

end

/-! ### Lowered trees -/

namespace Tree

/-- The root comes last, every other node is a child of one later node, once, what a shape names are
children, and ranges hold those of the children. -/
structure WellFormed (t : Tree) : Prop where
  last : t.root.toNat + 1 = t.size
  earlier : ∀ (i : Nat) (n : Node), t.nodes[i]? = some n → ∀ c ∈ n.children, c.toNat < i
  once : ∀ i : NodeId, i.toNat < t.size →
    (t.nodes.toList.flatMap Node.children).count i = if i = t.root then 0 else 1
  linked : ∀ n ∈ t.nodes, n.links ⊆ n.children
  forward : ∀ n ∈ t.nodes, n.range.start ≤ n.range.stop
  within : ∀ n ∈ t.nodes, ∀ c ∈ n.children, ∀ m, t.get? c = some m → m.range.Within n.range

/-- The id of the root is its index, so there is an id for each node. -/
theorem WellFormed.size_le {t : Tree} (h : t.WellFormed) : t.size ≤ 2 ^ 32 :=
  h.last ▸ t.root.toNat_lt

end Tree

theorem Forest.count_children {t : Tree} (h : Forest t.nodes [t.root]) {i : NodeId}
    (hi : i.toNat < t.size) :
    (t.nodes.toList.flatMap Node.children).count i = if i = t.root then 0 else 1 := by
  have hcount := h.once.count_eq i.toNat
  rw [List.count_map_of_injective _ _ (fun i j => UInt32.toNat_inj.1), List.count_append,
    List.nodup_range.count, if_pos (List.mem_range.2 (show i.toNat < t.nodes.size from hi))] at hcount
  by_cases hroot : i = t.root
  · rw [hroot, List.count_singleton_self] at hcount
    rw [if_pos hroot, hroot]
    omega
  · rw [List.count_eq_zero_of_not_mem (mt List.mem_singleton.1 hroot)] at hcount
    rw [if_neg hroot]
    omega

/-- Lowering a text shorter than `2 ^ 32` bytes: the lines of every node are a range, the ids inside of
its shape are those of children, and a walk over everything ends and comes to no node twice.  The tree
is well-formed just when there is an id for each node, and then a walk comes to all nodes. -/
theorem lower_wellFormed (text : List Char) {t : Concrete} (ht : t.Placed text)
    (hleaf : t.NamesAreLeaves) (hsize : byteLength text ≤ limit) :
    (∀ n ∈ (lower text t).nodes,
      n.links ⊆ n.children ∧ n.range.start ≤ n.range.stop ∧ ∃ lines, n.lines = .ok lines) ∧
    (∃ order s, (lower text t).WalkedIn order ∧ findIdentifiers (lower text t) none = .ok s ∧
      s.visited = order.length ∧ ((lower text t).size ≤ 2 ^ 32 →
        (order.map fun step => step.2.toNat).Perm (List.range (lower text t).size) ∧
          s.visited = (lower text t).size)) ∧
    ((lower text t).WellFormed ↔ (lower text t).size ≤ 2 ^ 32) := by
  have hcovered : Covered text (lower text t).nodes := covered_lowerNode ht none (.empty text)
  have hlinked : Linked (lower text t).nodes := linked_lowerNode t none .empty
  have hforward : ∀ n ∈ (lower text t).nodes, n.range.start ≤ n.range.stop := by
    intro n hn
    obtain ⟨s, hs, hr⟩ := hcovered n hn
    rw [hr]
    exact Document.range_forward hsize hs
  refine ⟨fun n hn => ⟨hlinked n hn, hforward n hn, _,
    Range.lines_of_forward (Position.line_le (hforward n hn))⟩, ?_,
    ⟨Tree.WellFormed.size_le, fun hfits => ?_⟩⟩
  · obtain ⟨o, ho, -⟩ := lower_shaped text ht.nested (Nat.le_trans ht.cuts.stop.le hsize)
    obtain ⟨s, hs, hvisited⟩ := ho.exists_visited
    refine ⟨_, s, ho.walkedIn, hs, hvisited, fun hfits => ?_⟩
    have hperm := ho.perm_arrivals (forest_lower text hleaf hfits)
    have hlength := hperm.length_eq
    rw [List.length_map, List.length_range] at hlength
    exact ⟨hperm, hvisited.trans hlength⟩
  · have hforest := forest_lower text hleaf hfits
    have hholding : Holding (lower text t).nodes :=
      (holding_lowerNode ht hsize none .empty hfits).1
    refine ⟨hforest.succ_top, hforest.below, fun i hi => hforest.count_children hi, hlinked,
      hforward, fun n hn c hc m hm => ?_⟩
    obtain ⟨m', hm', hwithin⟩ := hholding n hn c hc
    obtain rfl := Option.some.inj (hm'.symm.trans hm)
    exact hwithin

namespace Destructuring

theorem placed_tree : tree.Placed text where
  nested := by
    simp [Concrete.Nested, Concrete.NestedIn, Concrete.heading, Span.Within, tree, pattern, named]
  boundary := by decide +kernel

end Destructuring

open Destructuring in
/-- The tree of an object that is taken apart; its names without a colon became two nodes and more. -/
theorem lower_wellFormed_destructuring : tree.Placed text ∧ tree.NamesAreLeaves ∧
    byteLength text ≤ limit ∧ (lower text tree).WellFormed ∧
    ∃ s, findIdentifiers (lower text tree) none = .ok s ∧ s.visited = 18 := by
  have hsize : byteLength text ≤ limit := by decide +kernel
  have hnodes : (lower text tree).size = 18 := by decide +kernel
  have hfits : (lower text tree).size ≤ 2 ^ 32 := hnodes ▸ by decide
  obtain ⟨-, ⟨order, s, -, hs, -, hall⟩, hwell⟩ :=
    lower_wellFormed text placed_tree namesAreLeaves_tree hsize
  exact ⟨placed_tree, namesAreLeaves_tree, hsize, hwell.2 hfits, s, hs,
    (hall hfits).2.trans hnodes⟩

namespace Members

theorem placed_tree (m : Nat) : (tree m).Placed (text m) where
  nested := by
    refine ⟨Nat.zero_le _, Concrete.nestedIn_iff.2 fun c hc => ?_⟩
    obtain ⟨i, hi, rfl⟩ := List.mem_map.1 hc
    have hi := List.mem_range.1 hi
    exact ⟨⟨Nat.zero_le _, by simp only [member, Destructuring.named, Concrete.heading]; omega⟩,
      Nat.le_succ _, trivial⟩
  boundary u hu := by
    obtain rfl | hu := List.mem_cons.1 hu
    · exact ⟨boundary_text (Nat.zero_le _), boundary_text (Nat.le_refl _)⟩
    · obtain ⟨c, hc, hu⟩ := Concrete.mem_nodesOf.1 hu
      obtain ⟨i, hi, rfl⟩ := List.mem_map.1 hc
      have hi := List.mem_range.1 hi
      obtain rfl | hu := List.mem_cons.1 hu
      · exact ⟨boundary_text (by simp only [Concrete.heading]; omega),
          boundary_text (by simp only [Concrete.heading]; omega)⟩
      · cases hu

end Members

open Members in
/-- An object with so many members has more nodes than there are ids, and gets the id of its first
member.  So its tree is not well-formed, and a walk ends after the three nodes of that member. -/
theorem lower_not_wellFormed_members : (tree count).Placed (text count) ∧
    (tree count).NamesAreLeaves ∧ byteLength (text count) ≤ limit ∧
    (lower (text count) (tree count)).size = 4294967299 ∧
    ¬ (lower (text count) (tree count)).WellFormed ∧
    ∃ s, findIdentifiers (lower (text count) (tree count)) none = .ok s ∧ s.visited = 3 := by
  have hsize : (lower (text count) (tree count)).size = 4294967299 := size_lower count _
  have hroot : (lower (text count) (tree count)).root = 2 := root_lower count _
  have hshaped := shaped_lower (by decide) (text count) hroot
  exact ⟨placed_tree count, namesAreLeaves_tree count,
    (byteLength_text count).trans_le (by decide), hsize,
    fun hwell => absurd hwell.size_le (hsize ▸ by decide), hshaped.exists_visited⟩

end AnySpans.Syntax
