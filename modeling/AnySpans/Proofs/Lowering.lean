import AnySpans.Proofs.Adding
import AnySpans.Proofs.Walk

/-!
# Lowered trees are tree-shaped

Lowering gives out the ids of an arena in order, and the children of a node are made before it and
belong to no other node (`Lowered`).  So below a node that has an id of its own no node is reached
twice, and where the spans of the concrete tree hold those of its children, so do the lines of the
lowered one (`AllRegular`).  This is true of the root, whichever node that is (`lower_shaped`).
-/

namespace AnySpans.Text

open AnySpans.Lines

/-- The bytes of one span are among those of another. -/
def Span.Within (s u : Span) : Prop := u.start ≤ s.start ∧ s.stop ≤ u.stop

private theorem length_takeWhile_le {m n : Nat} (h : m ≤ n) (starts : List Nat) :
    (starts.takeWhile (· ≤ m)).length ≤ (starts.takeWhile (· ≤ n)).length := by
  induction starts with
  | nil => exact Nat.le_refl _
  | cons s ss ih =>
    by_cases hs : s ≤ m
    · have : s ≤ n := Nat.le_trans hs h
      simpa [hs, this] using ih
    · simp [hs]

theorem LineIndex.lineOf_mono (x : LineIndex) {m n : Nat} (h : m ≤ n) : x.lineOf m ≤ x.lineOf n :=
  Nat.sub_le_sub_right (length_takeWhile_le h x.starts) 1

private theorem length_takeWhile_startsAfter_le (byte n : Nat) (cs : List Char) :
    ((startsAfter byte cs).takeWhile (· ≤ n)).length ≤ n - byte := by
  induction cs generalizing byte with
  | nil => exact Nat.zero_le _
  | cons c cs ih =>
    have hc := c.utf8Size_pos
    have ih := ih (byte + c.utf8Size)
    rw [startsAfter]
    split
    · rw [List.takeWhile_cons]
      split
      · rename_i hle
        have hle := of_decide_eq_true hle
        rw [List.length_cons]
        omega
      · exact Nat.zero_le _
    · omega

/-- A line has a byte of its own before it ends. -/
theorem LineIndex.lineOf_le_offset (text : List Char) (byte : Nat) : (ofText text).lineOf byte ≤ byte := by
  have := length_takeWhile_startsAfter_le 0 byte text
  have hzero : decide (0 ≤ byte) = true := decide_eq_true (Nat.zero_le _)
  simp only [lineOf, ofText, List.takeWhile_cons, hzero, if_true, List.length_cons]
  omega

/-- The line of an offset of 32 bits is not cut. -/
theorem LineIndex.line_position (text : List Char) {byte : Nat} (h : byte ≤ limit) :
    ((ofText text).position text byte).line = (ofText text).lineOf byte :=
  Nat.mod_eq_of_lt (Nat.lt_succ_of_le (Nat.le_trans (lineOf_le_offset text byte) h))

end AnySpans.Text

namespace AnySpans.Syntax

open AnySpans.Lines AnySpans.Text

/-! ### Concrete trees -/

namespace Concrete

mutual

/-- Every node starts no later than it ends and holds its children. -/
def Nested : Concrete → Prop
  | node h cs => h.span.start ≤ h.span.stop ∧ NestedIn h.span cs

/-- Nested trees within a span. -/
def NestedIn (s : Span) : List Concrete → Prop
  | [] => True
  | c :: cs => (c.heading.span.Within s ∧ Nested c) ∧ NestedIn s cs

end

theorem nestedIn_iff {s : Span} {cs : List Concrete} :
    NestedIn s cs ↔ ∀ c ∈ cs, c.heading.span.Within s ∧ c.Nested := by
  induction cs with
  | nil => simp [NestedIn]
  | cons c cs ih => simp [NestedIn, ih]

end Concrete

section

variable (text : List Char) {s u : Span}

theorem Document.forward_range (h : s.start ≤ s.stop) (hlimit : s.stop ≤ limit) :
    ((Document.ofText text).range s).Forward := by
  have hline := LineIndex.lineOf_mono (.ofText text) h
  rwa [← LineIndex.line_position text hlimit,
    ← LineIndex.line_position text (Nat.le_trans h hlimit)] at hline

theorem Document.linesWithin_range (h : s.Within u) (hs : s.start ≤ s.stop) (hlimit : u.stop ≤ limit) :
    ((Document.ofText text).range s).LinesWithin ((Document.ofText text).range u) := by
  have hstop : s.stop ≤ limit := Nat.le_trans h.2 hlimit
  have hstart : s.start ≤ limit := Nat.le_trans hs hstop
  constructor
  · have hline := LineIndex.lineOf_mono (.ofText text) h.1
    rwa [← LineIndex.line_position text hstart,
      ← LineIndex.line_position text (Nat.le_trans h.1 hstart)] at hline
  · have hline := LineIndex.lineOf_mono (.ofText text) h.2
    rwa [← LineIndex.line_position text hlimit, ← LineIndex.line_position text hstop] at hline

end

/-! ### New nodes -/

/-- An arena went on to another one in which `os` are outlines of new nodes, all different. -/
structure Lowered (a a' : Arena) (os : List Outline) : Prop where
  size : a.size ≤ a'.size
  keeps : ∀ i n, a.tree.get? i = some n → a'.tree.get? i = some n
  of : ∀ o ∈ os, o.Of a'.tree
  fresh : ∀ i ∈ Outline.idsOf os, a.size ≤ i.toNat
  nodup : (Outline.idsOf os).Nodup
  layered : ∀ o ∈ os, a'.tree.Layered o.ids

/-- The lines of the top nodes are among those of a range. -/
def TopsWithin (a : Arena) (os : List Outline) (r : Range) : Prop :=
  ∀ o ∈ os, ∀ n, a.tree.get? o.id = some n → n.range.LinesWithin r

theorem TopsWithin.nil (a : Arena) (r : Range) : TopsWithin a [] r :=
  fun _ ho => absurd ho List.not_mem_nil

namespace Lowered

variable {a a' a₁ a₂ : Arena} {os os' : List Outline}

theorem refl (a : Arena) : Lowered a a [] :=
  ⟨Nat.le_refl _, fun _ _ h => h, by simp, by simp [Outline.idsOf], List.nodup_nil, by simp⟩

/-- Nodes may be left without a parent. -/
theorem drop (h : Lowered a a' os) : Lowered a a' [] :=
  ⟨h.size, h.keeps, by simp, by simp [Outline.idsOf], List.nodup_nil, by simp⟩

theorem perm (h : Lowered a a' os) (hp : os.Perm os') : Lowered a a' os' where
  size := h.size
  keeps := h.keeps
  of o ho := h.of o (hp.mem_iff.2 ho)
  fresh i hi := h.fresh i ((Outline.idsOf_perm hp).mem_iff.2 hi)
  nodup := (Outline.idsOf_perm hp).nodup_iff.1 h.nodup
  layered o ho := h.layered o (hp.mem_iff.2 ho)

theorem lt_size (h : Lowered a a' os) {i : NodeId} (hi : i ∈ Outline.idsOf os) :
    i.toNat < a'.size := by
  obtain ⟨o, ho, hi⟩ := Outline.mem_idsOf.1 hi
  exact (h.of o ho).lt_size i hi

theorem append (h : Lowered a a₁ os) (h' : Lowered a₁ a₂ os') : Lowered a a₂ (os ++ os') where
  size := Nat.le_trans h.size h'.size
  keeps i n hn := h'.keeps i n (h.keeps i n hn)
  of o ho := by
    obtain ho | ho := List.mem_append.1 ho
    · exact (h.of o ho).extend h'.keeps
    · exact h'.of o ho
  fresh i hi := by
    rw [Outline.idsOf_append, List.mem_append] at hi
    obtain hi | hi := hi
    · exact h.fresh i hi
    · exact Nat.le_trans h.size (h'.fresh i hi)
  nodup := by
    rw [Outline.idsOf_append]
    refine h.nodup.append h'.nodup fun i hi hi' => ?_
    exact absurd (h.lt_size hi) (Nat.not_lt.2 (h'.fresh i hi'))
  layered o ho := by
    obtain ho | ho := List.mem_append.1 ho
    · exact (h.of o ho).layered_extend (h.layered o ho) h'.keeps
    · exact h'.layered o ho

theorem topsWithin_append {r : Range} (h : Lowered a a₁ os) (h' : Lowered a₁ a₂ os')
    (ht : TopsWithin a₁ os r) (ht' : TopsWithin a₂ os' r) : TopsWithin a₂ (os ++ os') r := by
  intro o ho n hn
  obtain ho | ho := List.mem_append.1 ho
  · obtain ⟨m, hm⟩ := (h.of o ho).exists_get?
    obtain rfl : m = n := Option.some.inj ((h'.keeps _ m hm).symm.trans hn)
    exact ht o ho m hm
  · exact ht' o ho n hn

/-- A node over the new ones. -/
theorem node (h : Lowered a a' os) (hfits : a'.size < 2 ^ 32) (shape : Shape) {r : Range}
    (hr : r.Forward) (ht : TopsWithin a' os r) :
    Lowered a (a'.push ⟨shape, r, os.map Outline.id⟩) [.node a'.nextId os] := by
  have hkeeps : ∀ i n, a'.tree.get? i = some n →
      (Arena.tree (a'.push ⟨shape, r, os.map Outline.id⟩)).get? i = some n :=
    fun _ _ => Arena.get?_push
  have hself : (Arena.tree (a'.push ⟨shape, r, os.map Outline.id⟩)).get? a'.nextId =
      some ⟨shape, r, os.map Outline.id⟩ := Arena.get?_nextId hfits _
  have hnext := Arena.toNat_nextId hfits
  have hids : Outline.idsOf [Outline.node a'.nextId os] = a'.nextId :: Outline.idsOf os :=
    List.append_nil _
  have hof : (Outline.node a'.nextId os).Of
      (Arena.tree (a'.push ⟨shape, r, os.map Outline.id⟩)) :=
    ⟨⟨_, hself, rfl⟩, Outline.allOf_iff.2 fun o ho => (h.of o ho).extend hkeeps⟩
  refine ⟨?_, fun i n hn => hkeeps i n (h.keeps i n hn), ?_, ?_, ?_, ?_⟩
  · rw [Array.size_push]
    exact Nat.le_succ_of_le h.size
  · intro o ho
    rw [List.mem_singleton.1 ho]
    exact hof
  · intro i hi
    rw [hids] at hi
    obtain rfl | hi := List.mem_cons.1 hi
    · exact hnext.symm ▸ h.size
    · exact h.fresh i hi
  · rw [hids]
    exact List.nodup_cons.2 ⟨fun hi => absurd hnext (Nat.ne_of_lt (h.lt_size hi)), h.nodup⟩
  · intro o ho
    rw [List.mem_singleton.1 ho]
    have hbelow : ∀ o ∈ os, Tree.Layered _ o.ids := fun o ho =>
      (h.of o ho).layered_extend (h.layered o ho) hkeeps
    refine ⟨fun i hi n hn => ?_, fun i hi n hn c hc m hm => ?_⟩
    · obtain rfl | hi := List.mem_cons.1 hi
      · obtain rfl := Option.some.inj (hself.symm.trans hn)
        exact hr
      · obtain ⟨o, ho, hi⟩ := Outline.mem_idsOf.1 hi
        exact (hbelow o ho).forward i hi n hn
    · obtain rfl | hi := List.mem_cons.1 hi
      · obtain rfl := Option.some.inj (hself.symm.trans hn)
        obtain ⟨o, ho, rfl⟩ := List.mem_map.1 hc
        obtain ⟨m', hm'⟩ := (h.of o ho).exists_get?
        obtain rfl : m' = m := Option.some.inj ((hkeeps _ m' hm').symm.trans hm)
        exact ht o ho m' hm'
      · obtain ⟨o, ho, hi⟩ := Outline.mem_idsOf.1 hi
        exact (hbelow o ho).within i hi n hn c hc m hm

theorem topsWithin_node (hfits : a.size < 2 ^ 32) (os : List Outline) (shape : Shape) (r : Range)
    (children : List NodeId) : TopsWithin (a.push ⟨shape, r, children⟩) [.node a.nextId os] r := by
  intro o ho n hn
  rw [List.mem_singleton.1 ho] at hn
  obtain rfl := Option.some.inj ((Arena.get?_nextId hfits _).symm.trans hn)
  exact .refl

end Lowered

/-! ### Adding nodes -/

/-- What adding something to an arena comes to: a new top node with the given range. -/
def AddsTop (a : Arena) (r : Range) (added : Arena × NodeId) : Prop :=
  ∃ o, o.id = added.2 ∧ Lowered a added.1 [o] ∧ TopsWithin added.1 [o] r

section

variable {d : Document} {a a' : Arena} {os : List Outline}

theorem Lowered.add (h : Lowered a a' os) (hfits : a'.size < 2 ^ 32) (shape : Shape) {r : Range}
    (hr : r.Forward) (ht : TopsWithin a' os r) :
    AddsTop a r (a'.add shape r (os.map Outline.id)) :=
  ⟨_, rfl, h.node hfits shape hr ht, Lowered.topsWithin_node hfits _ _ _ _⟩

theorem Lowered.addShorthand (h : Lowered a a' os) (hfits : a'.size + 2 < 2 ^ 32) {s : Span}
    (hr : (d.range s).Forward) : AddsTop a (d.range s) (addShorthand d a' s) := by
  have hfirst : a'.size < 2 ^ 32 := Nat.lt_of_add_right_lt hfits
  have hsecond : (a'.push ⟨.identifier (d.slice s), d.range s, []⟩).size < 2 ^ 32 := by
    rw [Array.size_push]
    exact Nat.lt_of_succ_lt hfits
  have hkey := h.drop.node hfirst (.identifier (d.slice s)) hr (.nil _ _)
  have hvalue := (refl _).node hsecond (.identifier (d.slice s)) hr (.nil _ _)
  refine (hkey.append hvalue).add ?_ _ hr (hkey.topsWithin_append hvalue ?_ ?_)
  · simpa only [Array.size_push] using hfits
  · exact topsWithin_node hfirst _ _ _ _
  · exact topsWithin_node hsecond _ _ _ _

/-- What is added for a node over the new ones is a new one, if there are ids for it. -/
theorem Lowered.adds (h : Lowered a a' os) {parent : Option String} {heading : Heading}
    {cs : List Concrete} {added : Arena × NodeId}
    (hadd : Adds d parent heading cs (os.map Outline.id) a' added) (hfits : added.1.size ≤ 2 ^ 32)
    (hr : (d.range heading.span).Forward) (ht : TopsWithin a' os (d.range heading.span)) :
    AddsTop a (d.range heading.span) added := by
  cases hadd with
  | identifier _ _ =>
    rw [addIdentifier, Arena.add, Array.size_push] at hfits
    exact h.drop.add hfits _ hr (.nil _ _)
  | member _ _ =>
    refine h.addShorthand ?_ hr
    simp only [Syntax.addShorthand, addIdentifier, Arena.add, Array.size_push] at hfits
    omega
  | @defaulted sides name at' below _ hsides hget =>
    simp only [Arena.add, Array.size_push] at hfits
    obtain ⟨o, ho, hleft⟩ := List.mem_map.1 (mem_of_sides? hsides).1
    obtain ⟨m, hm⟩ := (h.of o ho).exists_get?
    -- the name on the left, which becomes the key
    have hback : m = ⟨.identifier name, at', below⟩ := by
      rw [← hleft] at hget
      exact Option.some.inj ((Arena.get?_push hm).symm.trans hget)
    have hforward : at'.Forward := by
      have := (h.layered o ho).forward o.id o.id_mem_ids m hm
      rwa [hback] at this
    have hwithin : at'.LinesWithin (d.range heading.span) := by
      have := ht o ho m hm
      rwa [hback] at this
    have hassign := h.node (by omega) (.assignmentPattern sides.1 sides.2) hr ht
    have htassign := topsWithin_node (a := a') (by omega) os (.assignmentPattern sides.1 sides.2)
      (d.range heading.span) (os.map Outline.id)
    have hkeyFits : (a'.push (assignment d heading (os.map Outline.id) sides)).size < 2 ^ 32 := by
      rw [Array.size_push]
      omega
    have hkey := (refl _).node hkeyFits (.identifier name) hforward (.nil _ _)
    have htkey := topsWithin_node hkeyFits [] (.identifier name) at' []
    have htkey : TopsWithin _ _ (d.range heading.span) := fun o ho n hn =>
      (htkey o ho n hn).trans hwithin
    have htall := hassign.topsWithin_append hkey htassign htkey
    have hswap := List.Perm.swap (Outline.node (Arena.nextId (a'.push
      (assignment d heading (os.map Outline.id) sides))) []) (Outline.node a'.nextId os) []
    refine ((hassign.append hkey).perm hswap).add ?_ _ hr fun o ho => htall o (hswap.mem_iff.2 ho)
    simp only [Array.size_push]
    omega
  | node _ _ _ _ =>
    rw [Arena.add, Array.size_push] at hfits
    exact h.add hfits _ hr ht

end

/-! ### Nodes that have ids -/

/-- Below the top of an outline no node is reached twice, and the lines of each node hold those of its
children. -/
structure Outline.Regular (o : Outline) (t : Tree) : Prop where
  of : o.Of t
  nodup : o.ids.Nodup
  layered : t.Layered o.ids

/-- Every id of an arena belongs to the top of a regular outline.  A node for which there was no id
left belongs to none, whatever its children are. -/
def AllRegular (a : Arena) : Prop :=
  ∀ i n, a.tree.get? i = some n → ∃ o : Outline, o.id = i ∧ o.Regular a.tree

theorem Lowered.regular {a a' : Arena} {os : List Outline} (h : Lowered a a' os) {o : Outline}
    (ho : o ∈ os) : o.Regular a'.tree :=
  ⟨h.of o ho, h.nodup.sublist (Outline.sublist_idsOf ho), h.layered o ho⟩

theorem AddsTop.regular {a : Arena} {r : Range} {added : Arena × NodeId} (h : AddsTop a r added) :
    ∃ o : Outline, o.id = added.2 ∧ o.Regular added.1.tree := by
  obtain ⟨o, ho, hlow, -⟩ := h
  exact ⟨o, ho, hlow.regular List.mem_cons_self⟩

namespace AllRegular

variable {d : Document} {a a' : Arena}

theorem empty : AllRegular #[] := fun _ _ hn => by cases hn

theorem push (h : AllRegular a) {n : Node}
    (hnew : a.size < 2 ^ 32 → ∃ o : Outline, o.id = a.nextId ∧ o.Regular (Arena.tree (a.push n))) :
    AllRegular (a.push n) := by
  intro i m hm
  have hi : i.toNat < a.size + 1 := Array.size_push n ▸ (Array.getElem?_eq_some_iff.1 hm).1
  obtain hi | hi := Nat.lt_succ_iff_lt_or_eq.1 hi
  · obtain ⟨o, ho, hr⟩ := h i _ (Array.getElem?_eq_getElem hi)
    have hkeeps : ∀ i n', a.tree.get? i = some n' → (Arena.tree (a.push n)).get? i = some n' :=
      fun _ _ => Arena.get?_push
    exact ⟨o, ho, hr.of.extend hkeeps, hr.nodup, hr.of.layered_extend hr.layered hkeeps⟩
  · have hfits : a.size < 2 ^ 32 := hi ▸ i.toNat_lt
    obtain ⟨o, ho, hr⟩ := hnew hfits
    exact ⟨o, ho.trans (UInt32.toNat_inj.1 ((Arena.toNat_nextId hfits).trans hi.symm)), hr⟩

theorem pushLeaf (h : AllRegular a) (name : String) {r : Range} (hr : r.Forward) :
    AllRegular (a.push ⟨.identifier name, r, []⟩) :=
  h.push fun hfits => ⟨_, rfl, ((Lowered.refl a).node hfits (.identifier name) hr (.nil _ _)).regular
    List.mem_cons_self⟩

/-- Adding a node keeps all nodes that have ids regular, if its children were lowered to new nodes as
long as there were ids for these. -/
theorem adds (ha : AllRegular a') {parent : Option String} {heading : Heading} {cs : List Concrete}
    {ids : List NodeId} {added : Arena × NodeId} (hadd : Adds d parent heading cs ids a' added)
    (hr : (d.range heading.span).Forward)
    (hlow : a'.size ≤ 2 ^ 32 → ∃ os, os.map Outline.id = ids ∧ Lowered a a' os ∧
      TopsWithin a' os (d.range heading.span)) : AllRegular added.1 := by
  have htop : added.1.size ≤ 2 ^ 32 → ∃ o : Outline, o.id = added.2 ∧ o.Regular added.1.tree := by
    intro hfits
    obtain ⟨os, rfl, hlow, ht⟩ := hlow (Nat.le_trans (Nat.le_of_lt hadd.size_lt) hfits)
    exact (hlow.adds hadd hfits hr ht).regular
  cases hadd with
  | identifier _ _ => exact ha.pushLeaf _ hr
  | member _ _ =>
    exact ((ha.pushLeaf _ hr).pushLeaf _ hr).push fun hfits => htop ((Array.size_push _).trans_le hfits)
  | @defaulted sides name at' below _ _ hget =>
    have hassign : AllRegular (a'.push (assignment d heading ids sides)) := ha.push fun hfits => by
      obtain ⟨os, rfl, hlow, ht⟩ := hlow (Nat.le_of_lt hfits)
      exact ⟨_, rfl, (hlow.node hfits (.assignmentPattern sides.1 sides.2) hr ht).regular
        List.mem_cons_self⟩
    -- the name on the left, which becomes the key
    obtain ⟨o, ho, hregular⟩ := hassign _ _ hget
    have hforward : at'.Forward := hregular.layered.forward o.id o.id_mem_ids _ (ho ▸ hget)
    exact (hassign.pushLeaf name hforward).push fun hfits => htop ((Array.size_push _).trans_le hfits)
  | node _ _ _ _ => exact ha.push fun hfits => htop ((Array.size_push _).trans_le hfits)

end AllRegular

/-! ### Lowering a tree -/

/-- What lowering some concrete nodes comes to: new top nodes within the range. -/
def LowersTo (a : Arena) (r : Range) (lowered : Arena × List NodeId) : Prop :=
  ∃ os, os.map Outline.id = lowered.2 ∧ Lowered a lowered.1 os ∧ TopsWithin lowered.1 os r

/-- Lowering a nested tree keeps all nodes that have ids regular, and the tree is lowered to a new top
node if there are ids for all nodes. -/
theorem lowerNode_lowersTo (text : List Char) {t : Concrete} (h : t.Nested)
    (hstop : t.heading.span.stop ≤ limit) (parent : Option String) {a : Arena} (ha : AllRegular a) :
    AllRegular (lowerNode (.ofText text) parent t a).1 ∧
      ((lowerNode (.ofText text) parent t a).1.size ≤ 2 ^ 32 →
        LowersTo a ((Document.ofText text).range t.heading.span)
          (lowerNode (.ofText text) parent t a)) := by
  refine (lowering_induction (.ofText text)
    (P := fun _ t a r => t.Nested → t.heading.span.stop ≤ limit → AllRegular a →
      Grows a r ∧ AllRegular r.1 ∧ (r.1.size ≤ 2 ^ 32 →
        LowersTo a ((Document.ofText text).range t.heading.span) r))
    (Q := fun _ cs a r => ∀ s : Span, (∀ c ∈ cs, c.heading.span.Within s ∧ c.Nested) →
      s.stop ≤ limit → AllRegular a → Grows a r ∧ AllRegular r.1 ∧ (r.1.size ≤ 2 ^ 32 →
        LowersTo a ((Document.ofText text).range s) r))
    ?_ ?_ ?_ ?_ ?_ t parent a h hstop ha).2
  · exact fun _ a _ _ _ ha => ⟨.nil a, ha, fun _ => ⟨[], rfl, .refl a, .nil _ _⟩⟩
  · exact fun _ c _ _ _ _ ih s hcs hs ha =>
      ih s (fun c' hc' => hcs c' (List.mem_cons_of_mem c hc')) hs ha
  · intro _ c cs a r r' _ hnode ih s hcs hs ha
    obtain ⟨hwithin, hc⟩ := hcs c List.mem_cons_self
    obtain ⟨hgrows, ha, hlow⟩ := hnode hc (Nat.le_trans hwithin.2 hs) ha
    obtain ⟨hgrows', ha, hlow'⟩ := ih s (fun c' hc' => hcs c' (List.mem_cons_of_mem c hc')) hs ha
    refine ⟨hgrows.append hgrows', ha, fun hfits => ?_⟩
    obtain ⟨os, hids, hlow, ht⟩ := hlow (Nat.le_trans hgrows'.size hfits)
    obtain ⟨os', hids', hlow', ht'⟩ := hlow' hfits
    have hforward : c.heading.span.start ≤ c.heading.span.stop := by
      cases c
      exact hc.1
    have ht : TopsWithin _ os ((Document.ofText text).range s) := fun o ho n hn =>
      (ht o ho n hn).trans (Document.linesWithin_range text hwithin hforward hs)
    refine ⟨os ++ os', ?_, hlow.append hlow', hlow.topsWithin_append hlow' ht ht'⟩
    rw [List.map_append, hids, hids']
  · exact fun _ h cs a r _ ih ht hstop ha => ih h.span (Concrete.nestedIn_iff.1 ht.2) hstop ha
  · intro parent h cs a r added _ ih hadd ht hstop ha
    obtain ⟨hgrows, ha, hlow⟩ := ih h.span (Concrete.nestedIn_iff.1 ht.2) hstop ha
    have hr := Document.forward_range text ht.1 hstop
    refine ⟨hgrows.adds hadd, ha.adds hadd hr hlow, fun hfits => ?_⟩
    obtain ⟨os, hids, hlow, htops⟩ := hlow (Nat.le_trans (Nat.le_of_lt hadd.size_lt) hfits)
    rw [← hids] at hadd
    obtain ⟨o, ho, hnew, htop⟩ := hlow.adds hadd hfits hr htops
    exact ⟨[o], by rw [List.map_singleton, ho], hnew, htop⟩

/-- The lowered tree of a nested concrete tree is tree-shaped, and the lines of each node hold those
of its children.  If there are more nodes than ids, its root is another node, of which this is true as
well. -/
theorem lower_shaped (text : List Char) {t : Concrete} (h : t.Nested)
    (hstop : t.heading.span.stop ≤ limit) :
    ∃ o, (lower text t).Shaped o ∧ (lower text t).Layered o.ids := by
  obtain ⟨root, hroot⟩ := List.length_eq_one_iff.1 (length_lowerNode (d := .ofText text) t none #[])
  have hlowered : (lower text t).root = root := by simp only [lower, hroot, List.headD_cons]
  have hinside := (grows_lowerNode (d := .ofText text) t none #[]).inside
  obtain ⟨n, hn⟩ := hinside root (hroot ▸ List.mem_singleton_self root)
  obtain ⟨o, ho, hregular⟩ := (lowerNode_lowersTo text h hstop none .empty).1 root n hn
  have hkeeps : ∀ i n, (lowerNode (.ofText text) none t #[]).1.tree.get? i = some n →
      (lower text t).get? i = some n := fun _ _ h => h
  exact ⟨o, ⟨ho.trans hlowered.symm, hregular.of.extend hkeeps, hregular.nodup⟩,
    hregular.of.layered_extend hregular.layered hkeeps⟩

end AnySpans.Syntax
