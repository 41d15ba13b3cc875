import AnySpans.Proofs.Walk

/-!
# Rooted arenas

An arena is `Rooted` when no node below the root is reached in two ways: the root is nobody's child,
and every other node that is reached is one child of one node.  The way up from a node is then the
only one (`Rooted.climb_unique`), so it never comes back to a node, and what is below the root has an
outline without repeated ids (`Rooted.exists_shaped`).  If the nodes also hold their children's
ranges, a walk that looks only at what touches a set of lines finds exactly the identifiers that
touch it (`pruned_walk_eq_filter`).
-/

namespace AnySpans.Syntax

open AnySpans.Lines AnySpans.Text

namespace Tree

variable (t : Tree)

/-- A node is the root or a child of a node that is reached. -/
inductive Reaches : NodeId → Prop
  | root : Reaches t.root
  | child {i c : NodeId} {n : Node} : Reaches i → t.get? i = some n → c ∈ n.children → Reaches c

/-- All nodes that are reached are in the arena, and each but the root is one child of one of them;
the root is a child of none. -/
structure Rooted : Prop where
  inside : ∀ i, t.Reaches i → i.toNat < t.size
  top : ∀ i n, t.Reaches i → t.get? i = some n → t.root ∉ n.children
  once : ∀ i n, t.Reaches i → t.get? i = some n → n.children.Nodup
  parent : ∀ i j n m c, t.Reaches i → t.Reaches j → t.get? i = some n → t.get? j = some m →
    c ∈ n.children → c ∈ m.children → i = j

/-- The nodes that are reached start no later than they end and hold their children. -/
structure Spanned : Prop where
  forward : ∀ i n, t.Reaches i → t.get? i = some n → n.range.start ≤ n.range.stop
  within : ∀ i n c m, t.Reaches i → t.get? i = some n → c ∈ n.children → t.get? c = some m →
    n.range.start ≤ m.range.start ∧ m.range.stop ≤ n.range.stop

/-- The nodes from a node up to the root, each a child of the next. -/
inductive Climb : List NodeId → Prop
  | root : Climb [t.root]
  | child {c p : NodeId} {above : List NodeId} {n : Node} : Climb (p :: above) →
    t.get? p = some n → c ∈ n.children → Climb (c :: p :: above)

variable {t} {i p : NodeId} {l above : List NodeId}

/-! ### The way up -/

theorem Climb.reaches (h : t.Climb l) : ∀ i ∈ l, t.Reaches i := by
  induction h with
  | root =>
    intro i hi
    exact List.mem_singleton.1 hi ▸ .root
  | child _ hn hc ih =>
    intro i hi
    obtain rfl | hi := List.mem_cons.1 hi
    · exact .child (ih _ List.mem_cons_self) hn hc
    · exact ih i hi

theorem Climb.of_suffix (h : t.Climb l) (hs : i :: above <:+ l) : t.Climb (i :: above) := by
  induction h with
  | root =>
    obtain hl | hl := List.suffix_cons_iff.1 hs
    · exact hl ▸ .root
    · cases List.suffix_nil.1 hl
  | child hp hn hc ih =>
    obtain hl | hl := List.suffix_cons_iff.1 hs
    · exact hl ▸ .child hp hn hc
    · exact ih hl

namespace Rooted

/-- There is one way up from a node. -/
theorem climb_unique (h : t.Rooted) (hl : t.Climb l) (hp : t.Climb (i :: above))
    (hi : l.head? = some i) : l = i :: above := by
  induction hl generalizing i above with
  | root =>
    cases hi
    cases hp with
    | root => rfl
    | child hq hn hc => exact absurd hc (h.top _ _ (hq.reaches _ List.mem_cons_self) hn)
  | child hq hn hc ih =>
    cases hi
    cases hp with
    | root => exact absurd hc (h.top _ _ (hq.reaches _ List.mem_cons_self) hn)
    | child hq' hn' hc' =>
      obtain rfl := h.parent _ _ _ _ _ (hq.reaches _ List.mem_cons_self)
        (hq'.reaches _ List.mem_cons_self) hn hn' hc hc'
      rw [ih hq' rfl]

/-- The way up from a node does not come back to one. -/
theorem nodup_of_climb (h : t.Rooted) (hl : t.Climb l) : l.Nodup := by
  induction hl with
  | root => exact List.nodup_singleton _
  | @child c p above n hp hn hc ih =>
    refine List.nodup_cons.2 ⟨fun hmem => ?_, ih⟩
    obtain ⟨s, l', hs⟩ := List.append_of_mem hmem
    have hl' : t.Climb (c :: l') := hp.of_suffix ⟨s, hs.symm⟩
    have heq := congrArg List.length (h.climb_unique (.child hp hn hc) hl' rfl)
    rw [List.length_cons, hs, List.length_append] at heq
    omega

theorem length_le_of_climb (h : t.Rooted) (hl : t.Climb l) : l.length ≤ t.size :=
  length_le_of_nodup_of_lt (h.nodup_of_climb hl) fun i hi => h.inside i (hl.reaches i hi)

end Rooted

/-! ### The outline below the root -/

/-- What is below a node, at most `depth` levels deep. -/
def outlineFrom (t : Tree) : (depth : Nat) → NodeId → Outline
  | 0, id => .node id []
  | depth + 1, id =>
    .node id (((t.get? id).map Node.children).getD [] |>.map (t.outlineFrom depth))

theorem outlineFrom_id (t : Tree) (depth : Nat) (id : NodeId) : (t.outlineFrom depth id).id = id := by
  cases depth <;> rfl

theorem map_outlineFrom_id (t : Tree) (depth : Nat) (ids : List NodeId) :
    (ids.map (t.outlineFrom depth)).map Outline.id = ids := by
  rw [List.map_map]
  exact (List.map_congr_left fun id _ => t.outlineFrom_id depth id).trans ids.map_id

theorem outlineFrom_succ {n : Node} (hn : t.get? i = some n) (depth : Nat) :
    t.outlineFrom (depth + 1) i = .node i (n.children.map (t.outlineFrom depth)) := by
  rw [outlineFrom, hn]
  rfl

/-- The outline from a node is one of the tree if its depth leaves room for the nodes that are not
above. -/
theorem Rooted.outlineFrom_of (h : t.Rooted) {depth : Nat} (hi : t.Climb (i :: above))
    (hdepth : t.size ≤ depth + above.length) : (t.outlineFrom depth i).Of t := by
  induction depth generalizing i above with
  | zero =>
    have := h.length_le_of_climb hi
    rw [List.length_cons] at this
    omega
  | succ depth ih =>
    have hlt := h.inside i (hi.reaches i List.mem_cons_self)
    have hn : t.get? i = some t.nodes[i.toNat] := Array.getElem?_eq_getElem hlt
    rw [outlineFrom_succ hn]
    refine ⟨⟨_, hn, (t.map_outlineFrom_id depth _).symm⟩, Outline.allOf_iff.2 fun o ho => ?_⟩
    obtain ⟨c, hc, rfl⟩ := List.mem_map.1 ho
    refine ih (.child hi hn hc) ?_
    rw [List.length_cons]
    omega

/-- The way up from a node of an outline leads through the top of the outline. -/
theorem exists_climb_of_mem_ids {depth : Nat} {j : NodeId} (hj : t.Climb (j :: above))
    (hi : i ∈ (t.outlineFrom depth j).ids) : ∃ l, t.Climb (i :: l) ∧ j :: above <:+ i :: l := by
  induction depth generalizing j above with
  | zero =>
    obtain rfl : i = j := List.mem_singleton.1 hi
    exact ⟨above, hj, List.suffix_refl _⟩
  | succ depth ih =>
    obtain rfl | hi := List.mem_cons.1 hi
    · exact ⟨above, hj, List.suffix_refl _⟩
    · obtain ⟨o, ho, hi⟩ := Outline.mem_idsOf.1 hi
      obtain ⟨c, hc, rfl⟩ := List.mem_map.1 ho
      cases hn : t.get? j with
      | none =>
        rw [hn] at hc
        cases hc
      | some n =>
        rw [hn] at hc
        obtain ⟨l, hl, hs⟩ := ih (.child hj hn hc) hi
        exact ⟨l, hl, (List.suffix_cons c _).trans hs⟩

/-- No node is below two children of a node. -/
theorem Rooted.eq_of_mem_ids (h : t.Rooted) {depth : Nat} {c c' : NodeId}
    (hc : t.Climb (c :: p :: above)) (hc' : t.Climb (c' :: p :: above))
    (hi : i ∈ (t.outlineFrom depth c).ids) (hi' : i ∈ (t.outlineFrom depth c').ids) : c = c' := by
  obtain ⟨l, hl, hs⟩ := exists_climb_of_mem_ids hc hi
  obtain ⟨l', hl', hs'⟩ := exists_climb_of_mem_ids hc' hi'
  rw [← h.climb_unique hl hl' rfl] at hs'
  have := (List.suffix_of_suffix_length_le hs hs' (Nat.le_refl _)).eq_of_length rfl
  exact (List.cons.inj this).1

/-- A node is not below one of its children. -/
theorem Rooted.not_mem_ids_of_child (h : t.Rooted) {depth : Nat} {c : NodeId}
    (hc : t.Climb (c :: p :: above)) : p ∉ (t.outlineFrom depth c).ids := by
  intro hp
  obtain ⟨l, hl, hs⟩ := exists_climb_of_mem_ids hc hp
  rw [h.climb_unique hl (hc.of_suffix (List.suffix_cons c _)) rfl] at hs
  have := hs.length_le
  rw [List.length_cons] at this
  omega

theorem Rooted.nodup_ids (h : t.Rooted) {depth : Nat} (hi : t.Climb (i :: above)) :
    (t.outlineFrom depth i).ids.Nodup := by
  induction depth generalizing i above with
  | zero => exact List.nodup_singleton i
  | succ depth ih =>
    have hlt := h.inside i (hi.reaches i List.mem_cons_self)
    have hn : t.get? i = some t.nodes[i.toNat] := Array.getElem?_eq_getElem hlt
    rw [outlineFrom_succ hn]
    refine List.nodup_cons.2 ⟨fun hmem => ?_, Outline.nodup_idsOf (fun o ho => ?_) ?_⟩
    · obtain ⟨o, ho, hmem⟩ := Outline.mem_idsOf.1 hmem
      obtain ⟨c, hc, rfl⟩ := List.mem_map.1 ho
      exact h.not_mem_ids_of_child (.child hi hn hc) hmem
    · obtain ⟨c, hc, rfl⟩ := List.mem_map.1 ho
      exact ih (.child hi hn hc)
    · have honce := h.once i _ (hi.reaches i List.mem_cons_self) hn
      refine List.pairwise_map.2 (honce.imp_of_mem fun hc hc' hne j hj hj' => hne ?_)
      exact h.eq_of_mem_ids (.child hi hn hc) (.child hi hn hc') hj hj'

/-- A rooted arena is tree-shaped. -/
theorem Rooted.exists_shaped (h : t.Rooted) : ∃ o, t.Shaped o ∧ ∀ i ∈ o.ids, t.Reaches i := by
  refine ⟨t.outlineFrom t.size t.root, ⟨t.outlineFrom_id _ _, ?_, h.nodup_ids .root⟩, ?_⟩
  · exact h.outlineFrom_of .root (Nat.le_add_right _ _)
  · intro i hi
    obtain ⟨l, hl, -⟩ := exists_climb_of_mem_ids .root hi
    exact hl.reaches i List.mem_cons_self

/-- What is reached is in the outline below the root. -/
theorem Shaped.mem_ids {o : Outline} (h : t.Shaped o) (hi : t.Reaches i) : i ∈ o.ids := by
  induction hi with
  | root => exact h.1 ▸ o.id_mem_ids
  | child _ hn hc ih => exact h.2.1.child_mem ih hn hc

theorem Spanned.layered (h : t.Spanned) {ids : List NodeId} (hids : ∀ i ∈ ids, t.Reaches i) :
    t.Layered ids where
  forward i hi n hn := Position.line_le (h.forward i n (hids i hi) hn)
  within i hi n hn c hc m hm := by
    obtain ⟨hstart, hstop⟩ := h.within i n c m (hids i hi) hn hc hm
    exact ⟨Position.line_le hstart, Position.line_le hstop⟩

/-! ### Arenas without unreachable flaws -/

-- there are too many ids to try all of them
instance (priority := 2000) (ids : List NodeId) (p : NodeId → Prop) [DecidablePred p] :
    Decidable (∀ i ∈ ids, p i) := List.decidableBAll p ids

/-- It is enough that all nodes of the arena, reached or not, are one child of one node. -/
theorem rooted_of_forall (hroot : t.root.toNat < t.size)
    (h : ∀ i : Fin t.size, t.nodes[i].children.Nodup ∧ ∀ c ∈ t.nodes[i].children,
      c.toNat < t.size ∧ c ≠ t.root ∧ ∀ j : Fin t.size, c ∈ t.nodes[j].children → i = j) :
    t.Rooted := by
  have hnode : ∀ {i n}, t.get? i = some n → ∃ hi : i.toNat < t.size, t.nodes[i.toNat] = n :=
    Array.getElem?_eq_some_iff.1
  refine ⟨fun i hi => ?_, fun i n _ hn hmem => ?_, fun i n _ hn => ?_,
    fun i j n m c _ _ hn hm hc hc' => ?_⟩
  · cases hi with
    | root => exact hroot
    | child _ hn hc =>
      obtain ⟨hi, rfl⟩ := hnode hn
      exact ((h ⟨_, hi⟩).2 i hc).1
  · obtain ⟨hi, rfl⟩ := hnode hn
    exact ((h ⟨_, hi⟩).2 t.root hmem).2.1 rfl
  · obtain ⟨hi, rfl⟩ := hnode hn
    exact (h ⟨_, hi⟩).1
  · obtain ⟨hi, rfl⟩ := hnode hn
    obtain ⟨hj, rfl⟩ := hnode hm
    exact UInt32.toNat_inj.1 (Fin.mk.inj (((h ⟨_, hi⟩).2 c hc).2.2 ⟨_, hj⟩ hc'))

theorem spanned_of_forall (h : ∀ i : Fin t.size, t.nodes[i].range.start ≤ t.nodes[i].range.stop ∧
    ∀ c ∈ t.nodes[i].children, ∀ m ∈ t.get? c,
      t.nodes[i].range.start ≤ m.range.start ∧ m.range.stop ≤ t.nodes[i].range.stop) :
    t.Spanned := by
  refine ⟨fun i n _ hn => ?_, fun i n c m _ hn hc hm => ?_⟩
  · obtain ⟨hi, rfl⟩ := Array.getElem?_eq_some_iff.1 hn
    exact (h ⟨_, hi⟩).1
  · obtain ⟨hi, rfl⟩ := Array.getElem?_eq_some_iff.1 hn
    exact (h ⟨_, hi⟩).2 c hc m hm

end Tree

/-- In a rooted arena whose nodes hold their children's ranges, a walk that leaves out what does not
touch a set of lines finds, of the identifiers that a walk over everything finds, exactly those that
touch the set, and finds them in the same order. -/
theorem pruned_walk_eq_filter {t : Tree} (h : t.Rooted) (hs : t.Spanned) (interest : IntervalSet) :
    ∃ part all, findIdentifiers t (some interest) = .ok part ∧ findIdentifiers t none = .ok all ∧
      part.candidates = all.candidates.filter fun c => c.range.touches interest := by
  obtain ⟨o, ho, hreach⟩ := h.exists_shaped
  exact findIdentifiers_touching ho (hs.layered hreach) interest

/-! ### An object that is taken apart -/

namespace TakenApart

/-- `const {x}` on a line, `= {x: y};` on the next. -/
def tree : Tree where
  nodes := #[
    ⟨.identifier "x", ⟨⟨0, 7⟩, ⟨0, 8⟩⟩, []⟩,
    ⟨.objectPattern [0], ⟨⟨0, 6⟩, ⟨0, 9⟩⟩, [0]⟩,
    ⟨.identifier "x", ⟨⟨1, 3⟩, ⟨1, 4⟩⟩, []⟩,
    ⟨.identifier "y", ⟨⟨1, 6⟩, ⟨1, 7⟩⟩, []⟩,
    ⟨.property 2 3 false false, ⟨⟨1, 3⟩, ⟨1, 7⟩⟩, [2, 3]⟩,
    ⟨.objectExpression [4], ⟨⟨1, 2⟩, ⟨1, 8⟩⟩, [4]⟩,
    ⟨.variableDeclarator 1 (some 5), ⟨⟨0, 6⟩, ⟨1, 8⟩⟩, [1, 5]⟩,
    ⟨.other "lexical_declaration", ⟨⟨0, 0⟩, ⟨1, 9⟩⟩, [6]⟩]
  root := 7

theorem rooted_tree : tree.Rooted := Tree.rooted_of_forall (by decide) (by decide +kernel)

theorem spanned_tree : tree.Spanned := Tree.spanned_of_forall (by decide +kernel)

/-- The second line. -/
def secondLine : IntervalSet := .ofRange (.single 1)

end TakenApart

open TakenApart in
/-- On the second line the key is not found, although the pattern that makes it the name of a slot
is on the first and left out. -/
theorem pruned_walk_of_second_line : tree.Rooted ∧ tree.Spanned ∧
    ∃ part all, findIdentifiers tree (some secondLine) = .ok part ∧
      findIdentifiers tree none = .ok all ∧
      part.candidates = all.candidates.filter (fun c => c.range.touches secondLine) ∧
      part.candidates = [⟨3, "y", ⟨⟨1, 6⟩, ⟨1, 7⟩⟩⟩] ∧ all.candidates.length = 2 := by
  obtain ⟨part, all, hpart, hall, heq⟩ := pruned_walk_eq_filter rooted_tree spanned_tree secondLine
  have hlength : (findIdentifiers tree none).map (fun s => s.candidates.length) = .ok 2 := by
    decide +kernel
  have hfound : (findIdentifiers tree (some secondLine)).map Selection.candidates =
      .ok [⟨3, "y", ⟨⟨1, 6⟩, ⟨1, 7⟩⟩⟩] := by
    decide +kernel
  rw [hpart] at hfound
  rw [hall] at hlength
  exact ⟨rooted_tree, spanned_tree, part, all, hpart, hall, heq, Except.ok.inj hfound,
    Except.ok.inj hlength⟩

end AnySpans.Syntax
