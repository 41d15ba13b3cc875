import AnySpans.Proofs.Outline

/-!
# What a walk finds

A walk over a tree-shaped arena chooses the identifiers of its outline (`findIdentifiers_of_shaped`):
on the way down the table of parents holds exactly the nodes above the present one, because no node
below it can be one of them.  With a set of lines a walk finds, among all chosen identifiers, those
that touch the set (`findIdentifiers_touching`).
-/

namespace AnySpans.Syntax

open AnySpans.Lines AnySpans.Text

/-! ### The table of parents -/

namespace Parents

variable (p : Parents)

theorem size_record (child parent : NodeId) : (p.record child parent).size = p.size := by
  simp [record]

theorem parent?_record_self {child : NodeId} (h : child.toNat < p.size) (parent : NodeId) :
    (p.record child parent).parent? child = some parent := by
  simp [record, parent?, h]

theorem parent?_record_of_ne {child i : NodeId} (h : i ≠ child) (parent : NodeId) :
    (p.record child parent).parent? i = p.parent? i := by
  have hne : child.toNat ≠ i.toNat := fun he => h (UInt32.toNat_inj.1 he).symm
  rw [record, parent?, Array.getElem?_setIfInBounds_ne hne, parent?]

/-- The parent of each node of a list is the next one; the last has none. -/
def Linked : List NodeId → Prop
  | [] => True
  | [id] => p.parent? id = none
  | id :: above :: rest => p.parent? id = some above ∧ Linked (above :: rest)

variable {p}

theorem Linked.congr {q : Parents} {l : List NodeId} (h : p.Linked l)
    (hq : ∀ i ∈ l, q.parent? i = p.parent? i) : q.Linked l := by
  induction l with
  | nil => trivial
  | cons i l ih =>
    cases l with
    | nil => exact (hq i List.mem_cons_self).trans h
    | cons j l =>
      exact ⟨(hq i List.mem_cons_self).trans h.1,
        ih h.2 fun k hk => hq k (List.mem_cons_of_mem i hk)⟩

end Parents

/-- The table decides about slot names as the nodes above do. -/
theorem isSlotName_of_linked {t : Tree} {p : Parents} {id : NodeId} {ancestors : List NodeId}
    (h : p.Linked (id :: ancestors)) : isSlotName t p id = Outline.namesSlot t id ancestors := by
  unfold isSlotName Outline.namesSlot
  match ancestors, h with
  | [], h => simp only [show p.parent? id = none from h]
  | [a], h => simp only [h.1, show p.parent? a = none from h.2, Bool.and_false]
  | [a, b], h => simp only [h.1, h.2.1, show p.parent? b = none from h.2.2, Bool.and_false]
  | a :: b :: c :: rest, h => simp only [h.1, h.2.1, h.2.2.1, Bool.and_assoc]

/-! ### Walking an outline -/

/-- The ranges a walk looks at. -/
def wantedBy : Option IntervalSet → Range → Bool
  | none, _ => true
  | some set, r => r.touches set

theorem isWanted_of_forward {n : Node} (h : n.range.Forward) (interest : Option IntervalSet) :
    isWanted interest n = .ok (wantedBy interest n.range) := by
  cases interest with
  | none => rfl
  | some set =>
    simp only [isWanted, wantedBy, Node.lines, Range.touches, Range.lines_of_forward h]
    rfl

/-- A walk went on through the given nodes and found the given candidates. -/
structure Walk.Extends (w w' : Walk) (ids : List NodeId) (cs : List Candidate) : Prop where
  found : w'.found = cs.reverse ++ w.found
  size : w'.parents.size = w.parents.size
  frame : ∀ i, i ∉ ids → w'.parents.parent? i = w.parents.parent? i

theorem Walk.Extends.refl (w : Walk) (ids : List NodeId) : w.Extends w ids [] :=
  ⟨rfl, rfl, fun _ _ => rfl⟩

theorem Walk.Extends.trans {w₁ w₂ w₃ : Walk} {ids ids' : List NodeId} {cs cs' : List Candidate}
    (h : w₁.Extends w₂ ids cs) (h' : w₂.Extends w₃ ids' cs') :
    w₁.Extends w₃ (ids ++ ids') (cs ++ cs') where
  found := by rw [h'.found, h.found, List.reverse_append, List.append_assoc]
  size := h'.size.trans h.size
  frame i hi := by
    rw [List.mem_append, not_or] at hi
    rw [h'.frame i hi.2, h.frame i hi.1]

theorem Walk.visit_extends {t : Tree} {id : NodeId} {n : Node} {w : Walk}
    {ancestors : List NodeId} (h : w.parents.Linked (id :: ancestors)) :
    w.Extends (w.visit t id n) [] (Outline.own t ancestors id n) := by
  unfold visit Outline.own
  cases n.shape with
  | identifier name =>
    simp only [isSlotName_of_linked h]
    split <;> exact ⟨rfl, rfl, fun _ _ => rfl⟩
  | _ => exact ⟨rfl, rfl, fun _ _ => rfl⟩

/-- Entering a node links it to the nodes above. -/
theorem Walk.linked_enter {w : Walk} {id : NodeId} {ancestors : List NodeId}
    (hlink : w.parents.Linked ancestors) (hid : id ∉ ancestors) (hlt : id.toNat < w.parents.size)
    (htop : ancestors = [] → w.parents.parent? id = none) :
    (w.enter ancestors.head? id).parents.Linked (id :: ancestors) := by
  cases ancestors with
  | nil => exact htop rfl
  | cons p rest =>
    refine ⟨w.parents.parent?_record_self hlt p, hlink.congr fun i hi => ?_⟩
    exact w.parents.parent?_record_of_ne (ne_of_mem_of_not_mem hi hid) p

theorem Walk.enter_extends (w : Walk) (parent : Option NodeId) (id : NodeId) :
    w.Extends (w.enter parent id) [id] [] := by
  cases parent with
  | none => exact .refl w [id]
  | some p =>
    refine ⟨rfl, w.parents.size_record id p, fun i hi => ?_⟩
    exact w.parents.parent?_record_of_ne (fun he => hi (List.mem_singleton.2 he)) p

section

variable {t : Tree} {interest : Option IntervalSet}

/-- What a walk does below the nodes `ancestors`, which the table links. -/
def WalksBelow (t : Tree) (interest : Option IntervalSet) (ancestors : List NodeId) (depth : Nat)
    (o : Outline) : Prop :=
  ∀ w : Walk, w.parents.size = t.size → w.parents.Linked ancestors →
    (ancestors = [] → w.parents.parent? o.id = none) →
    ∃ w', walkFrom t interest depth ancestors.head? o.id w = .ok w' ∧
      w.Extends w' o.ids (o.select t (wantedBy interest) ancestors)

theorem foldlM_walkFrom {id : NodeId} {ancestors : List NodeId} {depth : Nat} {cs : List Outline}
    (hcs : ∀ c ∈ cs, WalksBelow t interest (id :: ancestors) depth c)
    (hanc : ∀ a ∈ id :: ancestors, a ∉ Outline.idsOf cs) {w : Walk}
    (hsize : w.parents.size = t.size) (hlink : w.parents.Linked (id :: ancestors)) :
    ∃ w', (cs.map Outline.id).foldlM (fun w c => walkFrom t interest depth (some id) c w) w = .ok w' ∧
      w.Extends w' (Outline.idsOf cs)
        (Outline.selectAll t (wantedBy interest) (id :: ancestors) cs) := by
  induction cs generalizing w with
  | nil => exact ⟨w, rfl, .refl w _⟩
  | cons c cs ih =>
    obtain ⟨w₁, hw₁, h₁⟩ := hcs c List.mem_cons_self w hsize hlink fun h => by cases h
    have hlink₁ : w₁.parents.Linked (id :: ancestors) := hlink.congr fun i hi =>
      h₁.frame i fun hc => hanc i hi (List.mem_append_left _ hc)
    obtain ⟨w₂, hw₂, h₂⟩ := ih (fun c' hc' => hcs c' (List.mem_cons_of_mem c hc'))
      (fun a ha hmem => hanc a ha (List.mem_append_right _ hmem)) (h₁.size.trans hsize) hlink₁
    refine ⟨w₂, ?_, h₁.trans h₂⟩
    rw [List.map_cons, List.foldlM_cons]
    rw [List.head?_cons] at hw₁
    rw [hw₁]
    exact hw₂

/-- The nodes of an outline without repeated ids are walked as the outline says. -/
theorem walksBelow_of_outline (interest : Option IntervalSet) {o : Outline} (hof : o.Of t)
    (hf : ∀ i ∈ o.ids, ∀ n, t.get? i = some n → n.range.Forward) (hnd : o.ids.Nodup) {depth : Nat}
    (hdepth : o.ids.length ≤ depth) {ancestors : List NodeId}
    (hanc : ∀ a ∈ ancestors, a ∉ o.ids) :
    WalksBelow t interest ancestors depth o := by
  induction o generalizing depth ancestors with
  | node id cs ih =>
    intro w hsize hlink htop
    obtain ⟨n, hn, hchildren⟩ := hof.exists_node
    obtain ⟨hid, hnd⟩ := List.nodup_cons.1 hnd
    obtain ⟨depth, rfl⟩ : ∃ d, depth = d + 1 :=
      Nat.exists_eq_add_one.2 (Nat.lt_of_lt_of_le (Nat.succ_pos _) hdepth)
    have hlt : id.toNat < w.parents.size := hsize ▸ (Array.getElem?_eq_some_iff.1 hn).1
    have henter := w.enter_extends ancestors.head? id
    have hlink := Walk.linked_enter hlink (fun h => hanc id h List.mem_cons_self) hlt htop
    have hwanted := isWanted_of_forward (hf id List.mem_cons_self n hn) interest
    simp only [Outline.id, walkFrom, hn, hwanted, Outline.select]
    cases wantedBy interest n.range with
    | false =>
      refine ⟨_, rfl, henter.found, henter.size, fun i hi => henter.frame i fun h => hi ?_⟩
      exact List.mem_singleton.1 h ▸ List.mem_cons_self
    | true =>
      have hvisit := Walk.visit_extends (t := t) (n := n) hlink
      have hlink := hlink.congr fun i _ => hvisit.frame i List.not_mem_nil
      -- a child's subtree holds neither the node nor one above it
      have hdisjoint : ∀ a ∈ id :: ancestors, a ∉ Outline.idsOf cs := by
        intro a ha hmem
        obtain rfl | ha := List.mem_cons.1 ha
        · exact hid hmem
        · exact hanc a ha (List.mem_cons_of_mem id hmem)
      have hbelow : ∀ c ∈ cs, WalksBelow t interest (id :: ancestors) depth c := by
        intro c hc
        have hsub := Outline.sublist_idsOf hc
        refine ih c hc (hof.child hc) (fun i hi => hf i (Outline.ids_subset_of_mem hc hi))
          (hnd.sublist hsub) (Nat.le_trans hsub.length_le (Nat.le_of_succ_le_succ hdepth))
          fun a ha hmem => ?_
        exact hdisjoint a ha (hsub.subset hmem)
      obtain ⟨w', hw', h'⟩ := foldlM_walkFrom hbelow hdisjoint
        (hvisit.size.trans (henter.size.trans hsize)) hlink
      refine ⟨w', ?_, (henter.trans hvisit).trans h'⟩
      rw [hchildren]
      exact hw'

end

/-! ### Walking a tree -/

/-- An arena is tree-shaped: below its root no node is reached twice. -/
def Tree.Shaped (t : Tree) (o : Outline) : Prop := o.id = t.root ∧ o.Of t ∧ o.ids.Nodup

theorem Outline.Of.lt_size {t : Tree} {o : Outline} (h : o.Of t) :
    ∀ i ∈ o.ids, i.toNat < t.size := by
  induction o with
  | node id cs ih =>
    intro i hi
    obtain rfl | hi := List.mem_cons.1 hi
    · obtain ⟨n, hn, -⟩ := h.exists_node
      exact (Array.getElem?_eq_some_iff.1 hn).1
    · obtain ⟨c, hc, hi⟩ := mem_idsOf.1 hi
      exact ih c hc (h.child hc) i hi

/-- There are no more ids without repetition than nodes in the arena. -/
theorem length_le_of_nodup_of_lt {ids : List NodeId} {size : Nat} (hnd : ids.Nodup)
    (hlt : ∀ i ∈ ids, i.toNat < size) : ids.length ≤ size := by
  have hnd : (ids.map UInt32.toNat).Nodup := hnd.map fun _ _ => UInt32.toNat_inj.1
  have hsub : ids.map UInt32.toNat ⊆ List.range size := fun i hi => by
    obtain ⟨id, hid, rfl⟩ := List.mem_map.1 hi
    exact List.mem_range.2 (hlt id hid)
  simpa using (List.subperm_of_subset hnd hsub).length_le

/-- An outline without repeated ids has no more nodes than the arena. -/
theorem Tree.Shaped.length_le {t : Tree} {o : Outline} (h : t.Shaped o) : o.ids.length ≤ t.size :=
  length_le_of_nodup_of_lt h.2.2 h.2.1.lt_size

/-- A walk over a tree-shaped arena finds what the outline says. -/
theorem findIdentifiers_of_shaped {t : Tree} {o : Outline} (h : t.Shaped o)
    (hf : ∀ i ∈ o.ids, ∀ n, t.get? i = some n → n.range.Forward) (interest : Option IntervalSet) :
    ∃ s, findIdentifiers t interest = .ok s ∧
      s.candidates = o.select t (wantedBy interest) [] := by
  have hsize : t.isEmpty = false := by
    have := h.2.1.lt_size o.id o.id_mem_ids
    exact beq_eq_false_iff_ne.2 (Nat.ne_of_gt (Nat.zero_lt_of_lt this))
  have hbelow : WalksBelow t interest [] (t.size + 1) o := walksBelow_of_outline interest h.2.1 hf
    h.2.2 (Nat.le_succ_of_le h.length_le) fun a ha => absurd ha List.not_mem_nil
  obtain ⟨w, hw, hext⟩ := hbelow ⟨[], Array.replicate t.size none, 0⟩ Array.size_replicate trivial fun _ => by
      simp only [Parents.parent?, Array.getElem?_replicate]
      split <;> rfl
  rw [List.head?_nil, h.1] at hw
  refine ⟨⟨w.found.reverse, w.parents, w.visited⟩, ?_, ?_⟩
  · simp only [findIdentifiers, hsize, hw]
    rfl
  · simp [hext.found]

/-- With a set of lines a walk finds, of all identifiers it finds without, those that touch it. -/
theorem findIdentifiers_touching {t : Tree} {o : Outline} (h : t.Shaped o) (hl : t.Layered o.ids)
    (set : IntervalSet) :
    ∃ part all, findIdentifiers t (some set) = .ok part ∧ findIdentifiers t none = .ok all ∧
      part.candidates = all.candidates.filter fun c => c.range.touches set := by
  obtain ⟨part, hpart, hp⟩ := findIdentifiers_of_shaped h hl.forward (some set)
  obtain ⟨all, hall, ha⟩ := findIdentifiers_of_shaped h hl.forward none
  refine ⟨part, all, hpart, hall, ?_⟩
  rw [hp, ha]
  exact Outline.select_touching set h.2.1 hl []

end AnySpans.Syntax
