import AnySpans.Proofs.Arenas
import Mathlib.Logic.Relation

/-!
# The rule of selection

An identifier names a slot (`Tree.NamesSlot`) when it is the plain key of a member of an object that
is taken apart at once.  A walk over everything finds exactly the other identifiers, in the order of
the document (`walk_selects_by_rule`).

A walk decides about an identifier when it comes to it, by a table of parents that is filled only so
far.  To speak of these moments a walk is seen as a `Traversal`, which keeps a stack of the nodes to
come where `walkFrom` recurses (`traverses_of_walkFrom`).  The table never holds a wrong parent, and
it holds those of all nodes above the ones on the stack (`Traversal.Right`); so what is noted later
does not change a decision.
-/

namespace AnySpans.Syntax

open AnySpans.Lines AnySpans.Text Relation

namespace Tree

variable {t : Tree} {c p q : NodeId} {above : List NodeId}

/-! ### Parents -/

/-- A node that is reached has another one among its children. -/
def Parent (t : Tree) (p c : NodeId) : Prop :=
  t.Reaches p ∧ ∃ n, t.get? p = some n ∧ c ∈ n.children

theorem Rooted.parent_unique (h : t.Rooted) (hp : t.Parent p c) (hq : t.Parent q c) : p = q := by
  obtain ⟨hp, n, hn, hc⟩ := hp
  obtain ⟨hq, m, hm, hc'⟩ := hq
  exact h.parent _ _ _ _ _ hp hq hn hm hc hc'

theorem Rooted.not_parent_root (h : t.Rooted) : ¬ t.Parent p t.root := by
  rintro ⟨hp, n, hn, hc⟩
  exact h.top p n hp hn hc

theorem Climb.parent (h : t.Climb (c :: p :: above)) : t.Parent p c := by
  cases h with
  | child hp hn hc => exact ⟨hp.reaches _ List.mem_cons_self, _, hn, hc⟩

theorem Climb.tail (h : t.Climb (c :: p :: above)) : t.Climb (p :: above) := by
  cases h with
  | child hp _ _ => exact hp

/-- The parent of a node is the next one on the way up. -/
theorem Rooted.parent_iff (h : t.Rooted) (hc : t.Climb (c :: above)) :
    t.Parent p c ↔ above.head? = some p := by
  cases above with
  | nil =>
    obtain rfl : c = t.root := by
      cases hc
      rfl
    exact iff_of_false h.not_parent_root nofun
  | cons q above =>
    rw [List.head?_cons, Option.some.injEq]
    exact ⟨fun hp => h.parent_unique hc.parent hp, fun hq => hq ▸ hc.parent⟩

/-! ### The rule -/

/-- What assigns the object at `object` to an object pattern. -/
inductive TakesApart (t : Tree) (object : NodeId) : Shape → Prop
  | declarator {target : NodeId} {members : List NodeId} :
    t.shape? target = some (.objectPattern members) →
    TakesApart t object (.variableDeclarator target (some object))
  | expression {target : NodeId} {members : List NodeId} :
    t.shape? target = some (.objectPattern members) →
    TakesApart t object (.assignmentExpression target object)
  | default {target : NodeId} {members : List NodeId} :
    t.shape? target = some (.objectPattern members) →
    TakesApart t object (.assignmentPattern target object)

/-- A node is the key of a member without a computed key, in an object that is taken apart. -/
def NamesSlot (t : Tree) (key : NodeId) : Prop :=
  ∃ property value shorthand object members holder shape,
    (t.Parent property key ∧ t.shape? property = some (.property key value false shorthand)) ∧
    (t.Parent object property ∧ t.shape? object = some (.objectExpression members)) ∧
    (t.Parent holder object ∧ t.shape? holder = some shape) ∧ t.TakesApart object shape

/-- A candidate is the identifier at its node. -/
def Names (t : Tree) (c : Candidate) : Prop :=
  ∃ n, t.get? c.node = some n ∧ n.shape = .identifier c.name ∧ n.range = c.range

theorem hasPlainKey_iff {property key : NodeId} : hasPlainKey t property key = true ↔
    ∃ value shorthand, t.shape? property = some (.property key value false shorthand) := by
  unfold hasPlainKey
  split
  · rename_i hs
    simp only [hs, beq_iff_eq, Option.some.injEq, Shape.property.injEq, true_and]
    exact ⟨fun h => ⟨_, _, h, rfl, rfl⟩, fun ⟨_, _, h, _⟩ => h⟩
  · rename_i hs
    exact iff_of_false Bool.false_ne_true fun ⟨_, _, h⟩ => hs _ _ _ h

theorem isObjectExpression_iff {object : NodeId} : t.isObjectExpression object = true ↔
    ∃ members, t.shape? object = some (.objectExpression members) := by
  unfold isObjectExpression
  split
  · exact iff_of_true rfl ⟨_, ‹_›⟩
  · rename_i hs
    exact iff_of_false Bool.false_ne_true fun ⟨_, h⟩ => hs _ h

theorem isObjectPattern_iff {target : NodeId} : t.isObjectPattern target = true ↔
    ∃ members, t.shape? target = some (.objectPattern members) := by
  unfold isObjectPattern
  split
  · exact iff_of_true rfl ⟨_, ‹_›⟩
  · rename_i hs
    exact iff_of_false Bool.false_ne_true fun ⟨_, h⟩ => hs _ h

theorem takesApart_iff {holder object : NodeId} : takesApart t holder object = true ↔
    ∃ shape, t.shape? holder = some shape ∧ t.TakesApart object shape := by
  unfold takesApart
  split
  case h_1 hs | h_2 hs | h_3 hs =>
    simp only [hs, isObjectPattern_iff, Bool.and_eq_true, beq_iff_eq, Option.some.injEq,
      exists_eq_left']
    constructor
    · rintro ⟨rfl, members, hp⟩
      constructor
      exact hp
    · intro h
      cases h
      exact ⟨rfl, _, ‹_›⟩
  case h_4 hdeclarator hexpression hdefault =>
    refine iff_of_false Bool.false_ne_true ?_
    rintro ⟨shape, hshape, htakes⟩
    cases htakes with
    | declarator => exact hdeclarator _ _ hshape
    | expression => exact hexpression _ _ hshape
    | default => exact hdefault _ _ hshape

/-- The nodes on the way up tell whether a node names a slot. -/
theorem Rooted.namesSlot_iff (h : t.Rooted) {id : NodeId} (hc : t.Climb (id :: above)) :
    Outline.namesSlot t id above = true ↔ t.NamesSlot id := by
  constructor
  · intro hs
    unfold Outline.namesSlot at hs
    split at hs
    · rename_i property object holder above
      simp only [Bool.and_eq_true, hasPlainKey_iff, isObjectExpression_iff, takesApart_iff] at hs
      obtain ⟨⟨⟨value, shorthand, hproperty⟩, members, hobject⟩, shape, hshape, htakes⟩ := hs
      exact ⟨property, value, shorthand, object, members, holder, shape, ⟨hc.parent, hproperty⟩,
        ⟨hc.tail.parent, hobject⟩, ⟨hc.tail.tail.parent, hshape⟩, htakes⟩
    · cases hs
  · rintro ⟨property, value, shorthand, object, members, holder, shape, ⟨hp, hproperty⟩,
      ⟨ho, hobject⟩, ⟨hh, hshape⟩, htakes⟩
    obtain ⟨above, rfl⟩ := List.head?_eq_some_iff.1 ((h.parent_iff hc).1 hp)
    obtain ⟨above, rfl⟩ := List.head?_eq_some_iff.1 ((h.parent_iff hc.tail).1 ho)
    obtain ⟨above, rfl⟩ := List.head?_eq_some_iff.1 ((h.parent_iff hc.tail.tail).1 hh)
    simp only [Outline.namesSlot, Bool.and_eq_true]
    exact ⟨⟨hasPlainKey_iff.2 ⟨value, shorthand, hproperty⟩,
      isObjectExpression_iff.2 ⟨members, hobject⟩⟩, takesApart_iff.2 ⟨shape, hshape, htakes⟩⟩

end Tree

/-! ### What is found -/

namespace Outline

variable {t : Tree} {wanted : Range → Bool} {above : List NodeId} {c : Candidate}

theorem mem_own_iff {id : NodeId} {n : Node} : c ∈ own t above id n ↔
    c.node = id ∧ (n.shape = .identifier c.name ∧ n.range = c.range) ∧
      namesSlot t id above = false := by
  unfold own
  obtain ⟨node, name, range⟩ := c
  split
  · rename_i name' hname
    rw [hname, Shape.identifier.injEq]
    cases namesSlot t id above with
    | true => simp
    | false => simp [eq_comm]
  · rename_i hname
    exact iff_of_false List.not_mem_nil fun h => hname name h.2.1.1

/-- Identifiers are chosen in the order of the nodes. -/
theorem map_node_select (o : Outline) (above : List NodeId) :
    ((o.select t wanted above).map Candidate.node).Sublist o.ids := by
  induction o generalizing above with
  | node id cs ih =>
    have hall : ((selectAll t wanted (id :: above) cs).map Candidate.node).Sublist (idsOf cs) := by
      induction cs with
      | nil => exact .slnil
      | cons o cs ihcs =>
        rw [selectAll, List.map_append, idsOf]
        exact (ih o List.mem_cons_self _).append
          (ihcs fun o' ho' => ih o' (List.mem_cons_of_mem o ho'))
    have hown : ∀ n, ((own t above id n).map Candidate.node).Sublist [id] := by
      intro n
      unfold own
      split
      · split
        · exact List.nil_sublist _
        · exact .refl _
      · exact List.nil_sublist _
    rw [select]
    split
    · split
      · rw [List.map_append]
        exact (hown _).append hall
      · exact List.nil_sublist _
    · exact List.nil_sublist _

end Outline

/-- Of all identifiers below a node, those are chosen that do not name a slot. -/
theorem Tree.Rooted.mem_select_iff {t : Tree} (h : t.Rooted) {o : Outline} (hof : o.Of t)
    {above : List NodeId} (hc : t.Climb (o.id :: above)) {c : Candidate} :
    c ∈ o.select t (fun _ => true) above ↔ c.node ∈ o.ids ∧ t.Names c ∧ ¬ t.NamesSlot c.node := by
  induction o generalizing above with
  | node id cs ih =>
    obtain ⟨n, hn, hcs⟩ := hof.exists_node
    have hbelow : ∀ o ∈ cs, (c ∈ o.select t (fun _ => true) (id :: above) ↔
        c.node ∈ o.ids ∧ t.Names c ∧ ¬ t.NamesSlot c.node) := fun o ho =>
      ih o ho (hof.child ho) (.child hc hn (hcs ▸ List.mem_map_of_mem ho))
    have hown : c ∈ Outline.own t above id n ↔
        c.node = id ∧ t.Names c ∧ ¬ t.NamesSlot c.node := by
      rw [Outline.mem_own_iff, ← Bool.not_eq_true]
      constructor
      · rintro ⟨rfl, hnames, hslot⟩
        exact ⟨rfl, ⟨n, hn, hnames⟩, (h.namesSlot_iff hc).not.1 hslot⟩
      · rintro ⟨rfl, ⟨m, hm, hnames⟩, hslot⟩
        obtain rfl := Option.some.inj (hn.symm.trans hm)
        exact ⟨rfl, hnames, (h.namesSlot_iff hc).not.2 hslot⟩
    rw [Outline.select, hn]
    simp only [if_true, List.mem_append, Outline.mem_selectAll, hown, Outline.ids, List.mem_cons,
      Outline.mem_idsOf, or_and_right]
    refine or_congr_right ⟨?_, ?_⟩
    · rintro ⟨o, ho, hmem⟩
      obtain ⟨hid, hrest⟩ := (hbelow o ho).1 hmem
      exact ⟨⟨o, ho, hid⟩, hrest⟩
    · rintro ⟨⟨o, ho, hid⟩, hrest⟩
      exact ⟨o, ho, (hbelow o ho).2 ⟨hid, hrest⟩⟩

/-! ### A walk with a stack -/

/-- A walk under way: the nodes it will come to, the next first, each with the node through which it
comes there, and what it did so far. -/
structure Traversal where
  pending : List (NodeId × Option NodeId)
  walk : Walk

namespace Traversal

variable {t : Tree} {interest : Option IntervalSet} {s s' : Traversal}

/-- A walk over a tree that is about to come to the root. -/
def start (t : Tree) : Traversal := ⟨[(t.root, none)], ⟨[], Array.replicate t.size none, 0⟩⟩

/-- A walk comes to the next node: it leaves it out, or it visits it and will come to its children
next. -/
inductive Pops (t : Tree) (interest : Option IntervalSet) : Traversal → Traversal → Prop
  | leftOut {id : NodeId} {parent : Option NodeId} {rest : List (NodeId × Option NodeId)}
    {w : Walk} {n : Node} : t.get? id = some n → isWanted interest n = .ok false →
    Pops t interest ⟨(id, parent) :: rest, w⟩ ⟨rest, w.enter parent id⟩
  | visited {id : NodeId} {parent : Option NodeId} {rest : List (NodeId × Option NodeId)}
    {w : Walk} {n : Node} : t.get? id = some n → isWanted interest n = .ok true →
    Pops t interest ⟨(id, parent) :: rest, w⟩
      ⟨n.children.map (·, some id) ++ rest, (w.enter parent id).visit t id n⟩

theorem rightUnique_pops : Relator.RightUnique (Pops t interest) := by
  intro s s₁ s₂ h h'
  cases h with
  | leftOut hn hw =>
    cases h' with
    | leftOut => rfl
    | visited hn' hw' =>
      obtain rfl := Option.some.inj (hn.symm.trans hn')
      cases hw.symm.trans hw'
  | visited hn hw =>
    cases h' with
    | leftOut hn' hw' =>
      obtain rfl := Option.some.inj (hn.symm.trans hn')
      cases hw.symm.trans hw'
    | visited hn' hw' =>
      obtain rfl := Option.some.inj (hn.symm.trans hn')
      rfl

/-- A walk below some children of a node comes to them one after another. -/
theorem traverses_of_foldlM {id : NodeId} {depth : Nat} {cs : List Outline}
    (h : ∀ c ∈ cs, ∀ w w' rest, walkFrom t interest depth (some id) c.id w = .ok w' →
      ReflTransGen (Pops t interest) ⟨(c.id, some id) :: rest, w⟩ ⟨rest, w'⟩) {w w' : Walk}
    (hw : (cs.map Outline.id).foldlM (fun w c => walkFrom t interest depth (some id) c w) w =
      .ok w') (rest : List (NodeId × Option NodeId)) :
    ReflTransGen (Pops t interest) ⟨(cs.map Outline.id).map (·, some id) ++ rest, w⟩
      ⟨rest, w'⟩ := by
  induction cs generalizing w with
  | nil =>
    cases hw
    exact .refl
  | cons c cs ih =>
    rw [List.map_cons, List.foldlM_cons] at hw
    cases hc : walkFrom t interest depth (some id) c.id w with
    | error f =>
      rw [hc] at hw
      cases hw
    | ok w₁ =>
      rw [hc] at hw
      exact (h c List.mem_cons_self w w₁ _ hc).trans
        (ih (fun c' hc' => h c' (List.mem_cons_of_mem c hc')) hw)

/-- What is done below a node by recursion is done with a stack, too. -/
theorem traverses_of_walkFrom {o : Outline} (hof : o.Of t) {depth : Nat}
    (hdepth : o.ids.length ≤ depth) {parent : Option NodeId} {w w' : Walk}
    (hw : walkFrom t interest depth parent o.id w = .ok w') (rest : List (NodeId × Option NodeId)) :
    ReflTransGen (Pops t interest) ⟨(o.id, parent) :: rest, w⟩ ⟨rest, w'⟩ := by
  induction o generalizing depth parent w w' rest with
  | node id cs ih =>
    obtain ⟨n, hn, hcs⟩ := hof.exists_node
    obtain ⟨depth, rfl⟩ : ∃ d, depth = d + 1 :=
      Nat.exists_eq_add_one.2 (Nat.lt_of_lt_of_le (Nat.succ_pos _) hdepth)
    simp only [Outline.id, walkFrom, hn] at hw
    split at hw
    · cases hw
    · rename_i hwanted
      cases hw
      exact .single (.leftOut hn hwanted)
    · rename_i hwanted
      rw [hcs] at hw
      refine .head (.visited hn hwanted) ?_
      rw [hcs]
      refine traverses_of_foldlM (fun c hc w w' rest hw => ?_) hw rest
      exact ih c hc (hof.child hc) (Nat.le_trans (Outline.sublist_idsOf hc).length_le
        (Nat.le_of_succ_le_succ hdepth)) hw rest

end Traversal

/-! ### Decisions -/

/-- What one table of parents holds another one holds, too. -/
def Parents.Keeps (p q : Parents) : Prop := ∀ i a, p.parent? i = some a → q.parent? i = some a

/-- A table holds no wrong parent. -/
def Parents.Sound (t : Tree) (p : Parents) : Prop := ∀ i a, p.parent? i = some a → t.Parent a i

section

variable {t : Tree} {p q : Parents} {id : NodeId} {above l : List NodeId}

theorem Parents.Sound.parent?_root (hs : p.Sound t) (h : t.Rooted) : p.parent? t.root = none :=
  Option.eq_none_iff_forall_not_mem.2 fun a ha => h.not_parent_root (hs _ a ha)

/-- The way up from a node is kept, and nothing is added above the root. -/
theorem Parents.Linked.keep (hlink : p.Linked l) (h : t.Rooted) (hc : t.Climb l)
    (hkeep : p.Keeps q) (hsound : q.Sound t) : q.Linked l := by
  induction hc with
  | root => exact hsound.parent?_root h
  | child _ _ _ ih => exact ⟨hkeep _ _ hlink.1, ih hlink.2⟩

theorem Walk.parents_visit (t : Tree) (id : NodeId) (n : Node) (w : Walk) :
    (w.visit t id n).parents = w.parents := by
  unfold visit
  dsimp only
  split
  · split <;> rfl
  · rfl

namespace Traversal

variable {interest : Option IntervalSet} {s s' : Traversal}

/-- The table of parents is right as far as it goes, and holds what is above the nodes to come. -/
structure Right (t : Tree) (s : Traversal) : Prop where
  size : s.walk.parents.size = t.size
  sound : s.walk.parents.Sound t
  pending : ∀ x ∈ s.pending, ∃ above, t.Climb (x.1 :: above) ∧ x.2 = above.head? ∧
    s.walk.parents.Linked above

theorem right_start (t : Tree) : (start t).Right t where
  size := Array.size_replicate
  sound i a hi := by
    simp only [start, Parents.parent?, Array.getElem?_replicate] at hi
    split at hi <;> cases hi
  pending x hx := by
    obtain rfl := List.mem_singleton.1 hx
    exact ⟨[], .root, rfl, trivial⟩

/-- What is above a node to come stays linked. -/
theorem linked_above (h : t.Rooted) (hc : t.Climb (id :: above)) (hlink : p.Linked above)
    (hkeep : p.Keeps q) (hsound : q.Sound t) : q.Linked above := by
  cases above with
  | nil => trivial
  | cons a above => exact hlink.keep h hc.tail hkeep hsound

/-- Coming to a node links it to the nodes above and keeps the table right. -/
theorem Right.enter {parent : Option NodeId} {rest : List (NodeId × Option NodeId)} {w : Walk}
    (hs : Right t ⟨(id, parent) :: rest, w⟩) (h : t.Rooted) :
    (w.enter parent id).parents.Sound t ∧ w.parents.Keeps (w.enter parent id).parents ∧
      ∃ above, t.Climb (id :: above) ∧ (w.enter parent id).parents.Linked (id :: above) := by
  obtain ⟨above, hc, hparent, hlink⟩ := hs.pending _ List.mem_cons_self
  obtain rfl : parent = above.head? := hparent
  cases above with
  | nil =>
    obtain rfl : id = t.root := by
      cases hc
      rfl
    exact ⟨hs.sound, fun _ _ hi => hi, [], hc, hs.sound.parent?_root h⟩
  | cons a above =>
    have hlt : id.toNat < w.parents.size :=
      hs.size ▸ h.inside id (hc.reaches id List.mem_cons_self)
    have hself : (w.parents.record id a).parent? id = some a := w.parents.parent?_record_self hlt a
    have hne : ∀ i, i ≠ id → (w.parents.record id a).parent? i = w.parents.parent? i :=
      fun i hi => w.parents.parent?_record_of_ne hi a
    have hsound : (w.parents.record id a).Sound t := by
      intro i b hb
      by_cases hi : i = id
      · rw [hi, hself] at hb
        cases hb
        exact hi ▸ hc.parent
      · exact hs.sound i b (hne i hi ▸ hb)
    have hkeep : w.parents.Keeps (w.parents.record id a) := by
      intro i b hb
      by_cases hi : i = id
      · -- a node has one parent, so noting it again changes nothing
        rw [hi] at hb ⊢
        rw [hself, h.parent_unique hc.parent (hs.sound id b hb)]
      · rwa [hne i hi]
    exact ⟨hsound, hkeep, _, hc, hself, hlink.keep h hc.tail hkeep hsound⟩

theorem Right.pops (hs : s.Right t) (h : t.Rooted) (hp : Pops t interest s s') :
    s'.Right t ∧ s.walk.parents.Keeps s'.walk.parents := by
  have hrest : ∀ {x rest w q}, Right t ⟨x :: rest, w⟩ → w.parents.Keeps q → q.Sound t →
      ∀ y ∈ rest, ∃ above, t.Climb (y.1 :: above) ∧ y.2 = above.head? ∧ q.Linked above := by
    intro x rest w q hs hkeep hsound y hy
    obtain ⟨above, hc, hparent, hlink⟩ := hs.pending y (List.mem_cons_of_mem x hy)
    exact ⟨above, hc, hparent, linked_above h hc hlink hkeep hsound⟩
  cases hp with
  | leftOut _ _ =>
    obtain ⟨hsound, hkeep, -⟩ := hs.enter h
    exact ⟨⟨(Walk.enter_extends _ _ _).size.trans hs.size, hsound, hrest hs hkeep hsound⟩, hkeep⟩
  | @visited id parent rest w n hn _ =>
    obtain ⟨hsound, hkeep, above, hc, hlink⟩ := hs.enter h
    have hparents := Walk.parents_visit t id n (w.enter parent id)
    refine ⟨⟨?_, ?_, fun y hy => ?_⟩, ?_⟩
    · exact hparents ▸ (Walk.enter_extends _ _ _).size.trans hs.size
    · exact hparents ▸ hsound
    · obtain hy | hy := List.mem_append.1 hy
      · obtain ⟨c, hmem, rfl⟩ := List.mem_map.1 hy
        exact ⟨id :: above, .child hc hn hmem, rfl, hparents ▸ hlink⟩
      · exact hparents ▸ hrest hs hkeep hsound y hy
    · exact hparents ▸ hkeep

theorem Right.run (hs : s.Right t) (h : t.Rooted) (hr : ReflTransGen (Pops t interest) s s') :
    s'.Right t ∧ s.walk.parents.Keeps s'.walk.parents := by
  induction hr with
  | refl => exact ⟨hs, fun _ _ hi => hi⟩
  | tail _ hp ih =>
    obtain ⟨hright, hkeep⟩ := ih.1.pops h hp
    exact ⟨hright, fun i a hi => hkeep i a (ih.2 i a hi)⟩

/-- When a walk comes to a node, the table decides about it by the rule, and at the end of the walk
it still does. -/
theorem Right.verdict {parent : Option NodeId} {rest : List (NodeId × Option NodeId)} {w v : Walk}
    (hs : Right t ⟨(id, parent) :: rest, w⟩) (h : t.Rooted)
    (hr : ReflTransGen (Pops t interest) ⟨(id, parent) :: rest, w⟩ ⟨[], v⟩) :
    (isSlotName t (w.enter parent id).parents id = true ↔ t.NamesSlot id) ∧
      (isSlotName t v.parents id = true ↔ t.NamesSlot id) := by
  obtain ⟨hsound, -, above, hc, hlink⟩ := hs.enter h
  have hend : v.parents.Linked (id :: above) := by
    obtain heq | ⟨s, hp, hr⟩ := hr.cases_head
    · cases heq
    have henter : s.walk.parents = (w.enter parent id).parents := by
      cases hp with
      | leftOut => rfl
      | visited => exact Walk.parents_visit _ _ _ _
    obtain ⟨hv, hkeep⟩ := (hs.pops h hp).1.run h hr
    exact (henter.symm ▸ hlink).keep h hc hkeep hv.sound
  rw [isSlotName_of_linked hlink, isSlotName_of_linked hend]
  exact ⟨h.namesSlot_iff hc, h.namesSlot_iff hc⟩

end Traversal

end

/-- What is found over a tree-shaped arena is what a walk with a stack ends with. -/
theorem traverses_of_findIdentifiers {t : Tree} {o : Outline} (ho : t.Shaped o)
    {interest : Option IntervalSet} {s : Selection} (hs : findIdentifiers t interest = .ok s) :
    ∃ w : Walk, s = ⟨w.found.reverse, w.parents, w.visited⟩ ∧
      ReflTransGen (Traversal.Pops t interest) (.start t) ⟨[], w⟩ := by
  unfold findIdentifiers at hs
  split at hs
  · rename_i hempty
    have := ho.2.1.lt_size o.id o.id_mem_ids
    rw [eq_of_beq hempty] at this
    cases this
  · cases hw : walkFrom t interest (t.size + 1) none t.root
        ⟨[], Array.replicate t.size none, 0⟩ with
    | error f =>
      rw [hw] at hs
      cases hs
    | ok w =>
      rw [hw] at hs
      cases hs
      refine ⟨w, rfl, ?_⟩
      rw [← ho.1] at hw
      have := Traversal.traverses_of_walkFrom ho.2.1 (Nat.le_succ_of_le ho.length_le) hw []
      rwa [ho.1] at this

/-- In a rooted arena a walk over everything finds, in the order of the document, exactly the
identifiers that name no slot.  Whichever lines a walk looks at, it decides about a node by the rule,
and the table of parents with which it ends decides in the same way. -/
theorem walk_selects_by_rule {t : Tree} (h : t.Rooted)
    (hf : ∀ i n, t.Reaches i → t.get? i = some n → n.range.start ≤ n.range.stop) :
    (∃ o s, t.Shaped o ∧ findIdentifiers t none = .ok s ∧
      (s.candidates.map Candidate.node).Sublist o.ids ∧
      ∀ c, c ∈ s.candidates ↔ t.Reaches c.node ∧ t.Names c ∧ ¬ t.NamesSlot c.node) ∧
    ∀ interest, ∃ s w, findIdentifiers t interest = .ok s ∧
      s = ⟨w.found.reverse, w.parents, w.visited⟩ ∧
      ReflTransGen (Traversal.Pops t interest) (.start t) ⟨[], w⟩ ∧
      ∀ id parent rest v,
        ReflTransGen (Traversal.Pops t interest) (.start t) ⟨(id, parent) :: rest, v⟩ →
        isSlotName t (v.enter parent id).parents id = isSlotName t s.parents id ∧
          (isSlotName t s.parents id = true ↔ t.NamesSlot id) := by
  obtain ⟨o, ho, hreach⟩ := h.exists_shaped
  have hforward : ∀ i ∈ o.ids, ∀ n, t.get? i = some n → n.range.Forward := fun i hi n hn =>
    Position.line_le (hf i n (hreach i hi) hn)
  constructor
  · obtain ⟨s, hs, hc⟩ := findIdentifiers_of_shaped ho hforward none
    refine ⟨o, s, ho, hs, hc ▸ o.map_node_select [], fun c => ?_⟩
    have hids : c.node ∈ o.ids ↔ t.Reaches c.node := ⟨hreach _, ho.mem_ids⟩
    rw [hc, ← hids]
    exact h.mem_select_iff ho.2.1 (ho.1 ▸ .root)
  · intro interest
    obtain ⟨s, hs, -⟩ := findIdentifiers_of_shaped ho hforward interest
    obtain ⟨w, rfl, hw⟩ := traverses_of_findIdentifiers ho hs
    refine ⟨_, w, hs, rfl, hw, fun id parent rest v hv => ?_⟩
    obtain ⟨hright, -⟩ := (Traversal.right_start t).run h hv
    -- the walk goes on from the node to its end
    have hon : ReflTransGen (Traversal.Pops t interest) ⟨(id, parent) :: rest, v⟩ ⟨[], w⟩ := by
      obtain hon | hback := ReflTransGen.total_of_right_unique Traversal.rightUnique_pops hv hw
      · exact hon
      · obtain heq | ⟨_, hp, -⟩ := hback.cases_head
        · cases heq
        · cases hp
    obtain ⟨hthen, hend⟩ := hright.verdict h hon
    exact ⟨Bool.eq_iff_iff.2 (hthen.trans hend.symm), hend⟩

open TakenApart in
/-- The key on the second line names a slot, also to a walk that leaves out the pattern. -/
theorem walk_of_taken_apart_object : tree.Rooted ∧ tree.Spanned ∧ tree.NamesSlot 2 ∧
    ∃ all part, findIdentifiers tree none = .ok all ∧ all.candidates.map Candidate.node = [0, 3] ∧
      findIdentifiers tree (some secondLine) = .ok part ∧
      isSlotName tree part.parents 2 = true := by
  obtain ⟨⟨_, all, -, hall, -, hmem⟩, hwalk⟩ :=
    walk_selects_by_rule rooted_tree spanned_tree.forward
  obtain ⟨part, -, hpart, -⟩ := hwalk (some secondLine)
  have hfound : (findIdentifiers tree none).map Selection.candidates =
      .ok [⟨0, "x", ⟨⟨0, 7⟩, ⟨0, 8⟩⟩⟩, ⟨3, "y", ⟨⟨1, 6⟩, ⟨1, 7⟩⟩⟩] := by
    decide +kernel
  have hverdict : (findIdentifiers tree (some secondLine)).map
      (fun s => isSlotName tree s.parents 2) = .ok true := by
    decide +kernel
  rw [hall] at hfound
  rw [hpart] at hverdict
  have hfound := Except.ok.inj hfound
  have hkey : tree.Reaches 2 :=
    .child (i := 4) (.child (i := 5) (.child (i := 6) (.child (i := 7) .root rfl (by decide)) rfl
      (by decide)) rfl (by decide)) rfl (by decide)
  have hslot : tree.NamesSlot 2 := by
    by_contra hslot
    -- a key that names no slot would have been found
    have hc : (⟨2, "x", ⟨⟨1, 3⟩, ⟨1, 4⟩⟩⟩ : Candidate) ∈ all.candidates :=
      (hmem _).2 ⟨hkey, ⟨_, rfl, rfl, rfl⟩, hslot⟩
    rw [hfound] at hc
    exact absurd hc (by decide)
  refine ⟨rooted_tree, spanned_tree, hslot, all, part, hall, ?_, hpart, Except.ok.inj hverdict⟩
  rw [hfound]
  rfl

end AnySpans.Syntax
