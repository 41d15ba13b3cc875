import AnySpans.Syntax.Lower
import Mathlib.Algebra.Group.Nat.Defs

/-!
# What lowering adds

A node whose children are lowered becomes one node or a few, as `Adds` tells, and these are put at the
end of the arena.  What lowering keeps is proved by `lowering_induction`, or by `forall_mem_lowerNode`
if it is about each node by itself.  The id of a new node is its
index as long as there are no more than `2 ^ 32` nodes (`Arena.toNat_nextId`);
`lowering_induction_of_fits` carries this bound from the finished arena to all nodes on the way.
-/

namespace AnySpans.Syntax

open AnySpans.Text

/-! ### Arenas -/

namespace Arena

variable {a : Arena}

/-- An arena as a tree, for its nodes only. -/
def tree (a : Arena) : Tree := ⟨a, 0⟩

theorem toNat_nextId (h : a.size < 2 ^ 32) : a.nextId.toNat = a.size := UInt32.toNat_ofNat_of_lt' h

/-- The next id is never greater than its index. -/
theorem toNat_nextId_le (a : Arena) : a.nextId.toNat ≤ a.size := Nat.mod_le _ _

theorem get?_push {i : NodeId} {n m : Node} (h : a.tree.get? i = some n) :
    (tree (a.push m)).get? i = some n := by
  have hlt := (Array.getElem?_eq_some_iff.1 h).1
  exact (Array.getElem?_push_lt hlt).trans ((Array.getElem?_eq_getElem hlt).symm.trans h)

theorem forall_mem_push {p : Node → Prop} {n : Node} (ha : ∀ m ∈ a, p m) (hn : p n) :
    ∀ m ∈ a.push n, p m :=
  fun m hm => (Array.mem_push.1 hm).elim (ha m) fun h => h ▸ hn

/-- What is added has the next id, if that is its index. -/
theorem get?_nextId (h : a.size < 2 ^ 32) (n : Node) :
    (tree (a.push n)).get? a.nextId = some n := by
  rw [Tree.get?, toNat_nextId h]
  exact Array.getElem?_push_size

/-- After a node is added there is one with the id it was given. -/
theorem exists_get?_nextId (a : Arena) (n : Node) :
    ∃ m, (tree (a.push n)).get? a.nextId = some m := by
  have hlt : a.nextId.toNat < (a.push n).size := by
    rw [Array.size_push]
    exact Nat.lt_succ_of_le a.toNat_nextId_le
  exact ⟨_, Array.getElem?_eq_getElem hlt⟩

end Arena

/-! ### Nodes of concrete trees -/

namespace Concrete

/-- Induction over concrete trees: what holds of a node whenever it holds of its children. -/
@[induction_eliminator]
theorem induction {motive : Concrete → Prop}
    (node : ∀ h cs, (∀ c ∈ cs, motive c) → motive (.node h cs)) : ∀ t, motive t
  | .node h cs => node h cs fun c _ => induction node c

/-- The kinds of the nodes that become identifiers. -/
def nameKinds : List String :=
  ["identifier", "property_identifier", "type_identifier", "statement_identifier",
    "shorthand_property_identifier", "shorthand_property_identifier_pattern"]

mutual

/-- A node and all nodes below it. -/
def nodes : Concrete → List Concrete
  | node h cs => node h cs :: nodesOf cs

/-- All nodes of some trees. -/
def nodesOf : List Concrete → List Concrete
  | [] => []
  | c :: cs => nodes c ++ nodesOf cs

end

theorem mem_nodesOf {u : Concrete} {cs : List Concrete} :
    u ∈ nodesOf cs ↔ ∃ c ∈ cs, u ∈ c.nodes := by
  induction cs with
  | nil => simp [nodesOf]
  | cons c cs ih => simp [nodesOf, ih]

theorem mem_nodes_self (t : Concrete) : t ∈ t.nodes := by
  cases t
  exact List.mem_cons_self

theorem mem_nodes_of_child {h : Heading} {cs : List Concrete} {c u : Concrete} (hc : c ∈ cs)
    (hu : u ∈ c.nodes) : u ∈ (node h cs).nodes :=
  List.mem_cons_of_mem _ (mem_nodesOf.2 ⟨c, hc, hu⟩)

/-- Nodes that become identifiers have no children. -/
def NamesAreLeaves (t : Concrete) : Prop :=
  ∀ u ∈ t.nodes, u.heading.kind ∈ nameKinds → u.children = []

instance (t : Concrete) : Decidable t.NamesAreLeaves :=
  inferInstanceAs (Decidable (∀ u ∈ t.nodes, _ → _))

theorem NamesAreLeaves.child {h : Heading} {cs : List Concrete}
    (ht : (node h cs).NamesAreLeaves) : ∀ c ∈ cs, c.NamesAreLeaves :=
  fun _ hc u hu => ht u (mem_nodes_of_child hc hu)

theorem NamesAreLeaves.children_eq {h : Heading} {cs : List Concrete}
    (ht : (node h cs).NamesAreLeaves) (hk : h.kind ∈ nameKinds) : cs = [] :=
  ht _ (mem_nodes_self _) hk

end Concrete

/-! ### What becomes of a node -/

/-- The ids inside the shape of a node. -/
def Node.links (n : Node) : List NodeId :=
  match n.shape with
  | .identifier _ | .other _ => []
  | .property key value _ _ => [key, value]
  | .objectExpression members | .objectPattern members => members
  | .variableDeclarator target value => target :: value.toList
  | .assignmentExpression target value | .assignmentPattern target value => [target, value]

/-- Whether a name of a kind is a member of an object that is its own value. -/
def IsMember (parent : Option String) (kind : String) : Prop :=
  kind = "shorthand_property_identifier" ∨
    kind = "shorthand_property_identifier_pattern" ∧ parent ≠ some "object_assignment_pattern"

/-- The sides of a shorthand member with a default. -/
def sides? (h : Heading) (cs : List Concrete) (ids : List NodeId) : Option (NodeId × NodeId) :=
  if h.kind = "object_assignment_pattern" then
    (fieldId cs ids "left").bind fun left => (fieldId cs ids "right").map (left, ·)
  else none

/-- The pattern that assigns the default of a shorthand member. -/
def assignment (d : Document) (h : Heading) (ids : List NodeId) (sides : NodeId × NodeId) : Node :=
  ⟨.assignmentPattern sides.1 sides.2, d.range h.span, ids⟩

/-- What adding the node of a heading, whose children are lowered to `ids`, comes to. -/
inductive Adds (d : Document) (parent : Option String) (h : Heading) (cs : List Concrete)
    (ids : List NodeId) (a : Arena) : Arena × NodeId → Prop
  | identifier : h.kind ∈ Concrete.nameKinds → ¬ IsMember parent h.kind →
    Adds d parent h cs ids a (addIdentifier d a h.span)
  | member : h.kind ∈ Concrete.nameKinds → IsMember parent h.kind →
    Adds d parent h cs ids a (addShorthand d a h.span)
  /-- A shorthand member with a default, whose name becomes the key a second time. -/
  | defaulted {sides : NodeId × NodeId} {name : String} {at' : Range} {below : List NodeId} :
    h.kind ∉ Concrete.nameKinds → sides? h cs ids = some sides →
    (Arena.tree (a.push (assignment d h ids sides))).get? sides.1 =
      some ⟨.identifier name, at', below⟩ →
    Adds d parent h cs ids a
      (Arena.add ((a.push (assignment d h ids sides)).push ⟨.identifier name, at', []⟩)
        (.property (Arena.nextId (a.push (assignment d h ids sides))) a.nextId false true)
        (d.range h.span) [Arena.nextId (a.push (assignment d h ids sides)), a.nextId])
  /-- A node over its children. -/
  | node {shape : Shape} : h.kind ∉ Concrete.nameKinds → (∀ name, shape ≠ .identifier name) →
    (⟨shape, d.range h.span, ids⟩ : Node).links ⊆ ids →
    (∀ sides, sides? h cs ids = some sides → ∀ name at' below,
      (Arena.tree (a.push (assignment d h ids sides))).get? sides.1 ≠
        some ⟨.identifier name, at', below⟩) →
    Adds d parent h cs ids a (a.add shape (d.range h.span) ids)

section

variable {d : Document} {parent : Option String} {h : Heading} {cs : List Concrete}
  {ids : List NodeId} {a a' : Arena}

theorem fieldId_mem {field : String} {id : NodeId} (h : fieldId cs ids field = some id) :
    id ∈ ids := by
  induction cs generalizing ids with
  | nil => cases h
  | cons c cs ih =>
    rw [fieldId] at h
    split at h
    · split at h
      · exact List.mem_of_mem_head? h
      · cases h
    · have := ih h
      split at this
      · exact List.mem_of_mem_tail this
      · exact this

theorem mem_of_sides? {sides : NodeId × NodeId} (hs : sides? h cs ids = some sides) :
    sides.1 ∈ ids ∧ sides.2 ∈ ids := by
  unfold sides? at hs
  split at hs
  · obtain ⟨left, hleft, hs⟩ := Option.bind_eq_some_iff.1 hs
    obtain ⟨right, hright, rfl⟩ := Option.map_eq_some_iff.1 hs
    exact ⟨fieldId_mem hleft, fieldId_mem hright⟩
  · cases hs

theorem links_assignment {sides : NodeId × NodeId} (hs : sides? h cs ids = some sides) :
    (assignment d h ids sides).links ⊆ ids :=
  List.cons_subset.2 ⟨(mem_of_sides? hs).1,
    List.cons_subset.2 ⟨(mem_of_sides? hs).2, List.nil_subset ids⟩⟩

theorem links_bothOr {f : NodeId → NodeId → Shape} {x y : Option NodeId} {r : Range}
    (hf : ∀ x y, (⟨f x y, r, ids⟩ : Node).links = [x, y]) (hx : ∀ i, x = some i → i ∈ ids)
    (hy : ∀ i, y = some i → i ∈ ids) (kind : String) :
    (⟨bothOr f kind x y, r, ids⟩ : Node).links ⊆ ids := by
  unfold bothOr
  split
  · rename_i i j
    rw [hf]
    exact List.cons_subset.2 ⟨hx i rfl, List.cons_subset.2 ⟨hy j rfl, List.nil_subset ids⟩⟩
  · exact List.nil_subset ids

/-- The ids in a shape are those of children. -/
theorem links_shapeOf (kind : String) (cs : List Concrete) (ids : List NodeId) (r : Range) :
    (⟨shapeOf kind cs ids, r, ids⟩ : Node).links ⊆ ids := by
  have hboth : ∀ (f : NodeId → NodeId → Shape) (x y : String) (kind : String),
      (∀ x y, (⟨f x y, r, ids⟩ : Node).links = [x, y]) →
      (⟨bothOr f kind (fieldId cs ids x) (fieldId cs ids y), r, ids⟩ : Node).links ⊆ ids :=
    fun f x y kind hf => links_bothOr hf (fun _ => fieldId_mem) (fun _ => fieldId_mem) kind
  unfold shapeOf
  dsimp only
  split
  · exact hboth _ _ _ _ fun _ _ => rfl
  · exact hboth _ _ _ _ fun _ _ => rfl
  · exact List.Subset.refl ids
  · exact List.Subset.refl ids
  · split
    · rename_i target htarget
      refine List.cons_subset.2 ⟨fieldId_mem htarget, fun i hi => ?_⟩
      exact fieldId_mem (Option.mem_toList.1 hi)
    · exact List.nil_subset ids
  · exact hboth _ _ _ _ fun _ _ => rfl
  · exact hboth _ _ _ _ fun _ _ => rfl
  · exact hboth _ _ _ _ fun _ _ => rfl
  · exact hboth _ _ _ _ fun _ _ => rfl
  · exact List.nil_subset ids

theorem bothOr_ne_identifier {f : NodeId → NodeId → Shape} {name : String}
    (hf : ∀ x y, f x y ≠ .identifier name) (kind : String) (x y : Option NodeId) :
    bothOr f kind x y ≠ .identifier name := by
  unfold bothOr
  split
  · exact hf _ _
  · exact Shape.noConfusion

theorem shapeOf_ne_identifier (kind : String) (cs : List Concrete) (ids : List NodeId)
    (name : String) : shapeOf kind cs ids ≠ .identifier name := by
  unfold shapeOf
  dsimp only
  split
  case h_5 => split <;> exact Shape.noConfusion
  case h_3 | h_4 | h_10 => exact Shape.noConfusion
  all_goals exact bothOr_ne_identifier (fun _ _ => Shape.noConfusion) _ _ _

theorem adds_addDefaulted (hk : h.kind = "object_assignment_pattern") :
    Adds d parent h cs ids a (addDefaulted a h.kind (d.range h.span) (fieldId cs ids "left")
      (fieldId cs ids "right") ids) := by
  have hname : h.kind ∉ Concrete.nameKinds := by
    rw [hk]
    decide
  have hsides : sides? h cs ids =
      (fieldId cs ids "left").bind fun left => (fieldId cs ids "right").map (left, ·) := if_pos hk
  unfold addDefaulted
  split
  · rename_i left right hleft hright
    rw [hleft, hright] at hsides
    dsimp only [Arena.add]
    split
    · rename_i name at' below hget
      exact .defaulted hname hsides hget
    · rename_i hget
      refine .node hname (fun _ => Shape.noConfusion) (links_assignment hsides)
        fun sides hs name at' below hne => ?_
      obtain rfl := Option.some.inj (hsides.symm.trans hs)
      exact hget name at' below hne
  · rename_i hnone
    refine .node hname (fun _ => Shape.noConfusion) (List.nil_subset ids) fun sides hs => ?_
    obtain ⟨left, hleft, hright⟩ := Option.bind_eq_some_iff.1 (hsides.symm.trans hs)
    obtain ⟨right, hright, -⟩ := Option.map_eq_some_iff.1 hright
    exact absurd hright (hnone left right hleft)

theorem adds_addNode : Adds d parent h cs ids a (addNode d parent h cs ids a) := by
  unfold addNode
  split
  case h_1 hk | h_2 hk | h_3 hk | h_4 hk =>
    refine .identifier ?_ ?_ <;> rw [hk] <;> simp [IsMember, Concrete.nameKinds]
  case h_5 hk =>
    refine .member ?_ (.inl hk)
    rw [hk]
    decide
  case h_6 hk =>
    have hname : h.kind ∈ Concrete.nameKinds := by
      rw [hk]
      decide
    split
    · rename_i hp
      refine .identifier hname ?_
      rw [hk, hp]
      simp [IsMember]
    · rename_i hp
      exact .member hname (.inr ⟨hk, hp⟩)
  case h_7 hk => exact adds_addDefaulted hk
  case h_8 =>
    refine .node ?_ (shapeOf_ne_identifier _ _ _) (links_shapeOf _ _ _ _) fun sides hs => ?_
    · simp_all [Concrete.nameKinds]
    · unfold sides? at hs
      split at hs
      · contradiction
      · cases hs

theorem Adds.size_lt {added : Arena × NodeId} (hadd : Adds d parent h cs ids a added) :
    a.size < added.1.size := by
  cases hadd <;> simp only [addIdentifier, addShorthand, Arena.add, Array.size_push] <;> omega

end

/-! ### Growing arenas -/

/-- An arena went on to another one, which holds the nodes with the given ids. -/
structure Grows (a : Arena) (r : Arena × List NodeId) : Prop where
  size : a.size ≤ r.1.size
  keeps : ∀ i n, a.tree.get? i = some n → r.1.tree.get? i = some n
  inside : ∀ i ∈ r.2, ∃ n, r.1.tree.get? i = some n

namespace Grows

variable {d : Document} {parent : Option String} {h : Heading} {cs : List Concrete} {a : Arena}
  {r r' : Arena × List NodeId} {added : Arena × NodeId}

theorem nil (a : Arena) : Grows a (a, []) :=
  ⟨Nat.le_refl _, fun _ _ hn => hn, fun _ hi => absurd hi List.not_mem_nil⟩

theorem append (h : Grows a r) (h' : Grows r.1 r') : Grows a (r'.1, r.2 ++ r'.2) where
  size := Nat.le_trans h.size h'.size
  keeps i n hn := h'.keeps i n (h.keeps i n hn)
  inside i hi := by
    obtain hi | hi := List.mem_append.1 hi
    · obtain ⟨n, hn⟩ := h.inside i hi
      exact ⟨n, h'.keeps i n hn⟩
    · exact h'.inside i hi

theorem adds (hr : Grows a r) (hadd : Adds d parent h cs r.2 r.1 added) :
    Grows a (added.1, [added.2]) where
  size := Nat.le_trans hr.size (Nat.le_of_lt hadd.size_lt)
  keeps i n hn := by
    have hn := hr.keeps i n hn
    cases hadd with
    | identifier _ _ | node _ _ _ _ => exact Arena.get?_push hn
    | member _ _ | defaulted _ _ _ => exact Arena.get?_push (Arena.get?_push (Arena.get?_push hn))
  inside i hi := by
    rw [List.mem_singleton.1 hi]
    cases hadd <;> exact Arena.exists_get?_nextId _ _

end Grows

/-! ### Induction over lowering -/

/-- What holds of some lowered nodes, if it holds of no nodes at all and stays true when a node that
does not count is left out, when a node that counts is lowered before the others, when parentheses are
skipped and when a node is added over its lowered children. -/
theorem lowering_induction (d : Document)
    {P : Option String → Concrete → Arena → Arena × List NodeId → Prop}
    {Q : Option String → List Concrete → Arena → Arena × List NodeId → Prop}
    (nil : ∀ parent a, Q parent [] a (a, []))
    (skip : ∀ parent c cs a r, c.isSignificant = false → Q parent cs a r → Q parent (c :: cs) a r)
    (cons : ∀ parent c cs a r r', c.isSignificant = true → P parent c a r → Q parent cs r.1 r' →
      Q parent (c :: cs) a (r'.1, r.2 ++ r'.2))
    (wrapper : ∀ parent h cs a r, Concrete.isWrapper h cs = true → Q parent cs a r →
      P parent (.node h cs) a r)
    (node : ∀ parent h cs a r added, Concrete.isWrapper h cs = false → Q (some h.kind) cs a r →
      Adds d parent h cs r.2 r.1 added → P parent (.node h cs) a (added.1, [added.2]))
    (t : Concrete) (parent : Option String) (a : Arena) : P parent t a (lowerNode d parent t a) := by
  induction t generalizing parent a with
  | node h cs ih =>
    have hall : ∀ (parent : Option String) (a : Arena), Q parent cs a (lowerAll d parent cs a) := by
      intro parent a
      clear node wrapper
      induction cs generalizing a with
      | nil => exact nil parent a
      | cons c cs ihcs =>
        have ihcs := ihcs fun c' hc' => ih c' (List.mem_cons_of_mem c hc')
        rw [lowerAll]
        cases hsig : c.isSignificant with
        | true => exact cons _ _ _ _ _ _ hsig (ih c List.mem_cons_self parent a) (ihcs _)
        | false => exact skip _ _ _ _ _ hsig (ihcs a)
    rw [lowerNode]
    split
    · exact wrapper _ _ _ _ _ ‹_› (hall parent a)
    · exact node _ _ _ _ _ _ (Bool.eq_false_iff.2 ‹_›) (hall (some h.kind) a) adds_addNode

variable {d : Document}

/-- An arena grows while a tree is lowered. -/
theorem grows_lowerNode (t : Concrete) (parent : Option String) (a : Arena) :
    Grows a (lowerNode d parent t a) :=
  lowering_induction d (P := fun _ _ a r => Grows a r) (Q := fun _ _ a r => Grows a r)
    (fun _ => .nil) (fun _ _ _ _ _ _ h => h) (fun _ _ _ _ _ _ _ h h' => h.append h')
    (fun _ _ _ _ _ _ h => h) (fun _ _ _ _ _ _ _ h hadd => h.adds hadd) t parent a

/-- An arena grows while some children are lowered. -/
theorem grows_lowerAll (cs : List Concrete) (parent : Option String) (a : Arena) :
    Grows a (lowerAll d parent cs a) := by
  induction cs generalizing a with
  | nil => exact .nil a
  | cons c cs ih =>
    rw [lowerAll]
    cases c.isSignificant with
    | true => exact (grows_lowerNode c parent a).append (ih _)
    | false => exact ih a

/-- Induction over lowering into an arena that has no more nodes than ids in the end, and so had no more
on the way. -/
theorem lowering_induction_of_fits (d : Document)
    {P : Option String → Concrete → Arena → Arena × List NodeId → Prop}
    {Q : Option String → List Concrete → Arena → Arena × List NodeId → Prop}
    (nil : ∀ parent a, Q parent [] a (a, []))
    (skip : ∀ parent c cs a r, c.isSignificant = false → Q parent cs a r → Q parent (c :: cs) a r)
    (cons : ∀ parent c cs a r r', c.isSignificant = true → P parent c a r → Q parent cs r.1 r' →
      Q parent (c :: cs) a (r'.1, r.2 ++ r'.2))
    (wrapper : ∀ parent h cs a r, Concrete.isWrapper h cs = true → Q parent cs a r →
      P parent (.node h cs) a r)
    (node : ∀ parent h cs a r added, Concrete.isWrapper h cs = false → added.1.size ≤ 2 ^ 32 →
      Q (some h.kind) cs a r → Adds d parent h cs r.2 r.1 added →
      P parent (.node h cs) a (added.1, [added.2]))
    (t : Concrete) (parent : Option String) (a : Arena)
    (hfits : (lowerNode d parent t a).1.size ≤ 2 ^ 32) : P parent t a (lowerNode d parent t a) := by
  refine (lowering_induction d
    (P := fun parent t a r => Grows a r ∧ (r.1.size ≤ 2 ^ 32 → P parent t a r))
    (Q := fun parent cs a r => Grows a r ∧ (r.1.size ≤ 2 ^ 32 → Q parent cs a r))
    ?_ ?_ ?_ ?_ ?_ t parent a).2 hfits
  · exact fun parent a => ⟨.nil a, fun _ => nil parent a⟩
  · exact fun _ _ _ _ _ hc ⟨hgrows, h⟩ => ⟨hgrows, fun hfits => skip _ _ _ _ _ hc (h hfits)⟩
  · intro _ c cs a r r' hc ⟨hgrows, h⟩ ⟨hgrows', h'⟩
    refine ⟨hgrows.append hgrows', fun hfits => cons _ _ _ _ _ _ hc (h ?_) (h' hfits)⟩
    exact Nat.le_trans hgrows'.size hfits
  · exact fun _ _ _ _ _ hwrap ⟨hgrows, h⟩ =>
      ⟨hgrows, fun hfits => wrapper _ _ _ _ _ hwrap (h hfits)⟩
  · intro _ _ _ _ _ added hwrap ⟨hgrows, h⟩ hadd
    refine ⟨hgrows.adds hadd, fun hfits => node _ _ _ _ _ _ hwrap hfits (h ?_) hadd⟩
    exact Nat.le_trans (Nat.le_of_lt hadd.size_lt) hfits

/-- What is true of all nodes of an arena stays true when a tree is lowered, if it does whenever a node
is added. -/
theorem forall_mem_lowerNode {T : Concrete → Prop} {p : Node → Prop}
    (child : ∀ h cs, T (.node h cs) → ∀ c ∈ cs, c.isSignificant = true → T c)
    (adds : ∀ parent h cs ids a added, T (.node h cs) → Adds d parent h cs ids a added →
      (∀ n ∈ a, p n) → ∀ n ∈ added.1, p n)
    {t : Concrete} (ht : T t) (parent : Option String) {a : Arena} (ha : ∀ n ∈ a, p n) :
    ∀ n ∈ (lowerNode d parent t a).1, p n := by
  refine lowering_induction d (P := fun _ t a r => T t → (∀ n ∈ a, p n) → ∀ n ∈ r.1, p n)
    (Q := fun _ cs a r => (∀ c ∈ cs, c.isSignificant = true → T c) → (∀ n ∈ a, p n) →
      ∀ n ∈ r.1, p n)
    ?_ ?_ ?_ ?_ ?_ t parent a ht ha
  · exact fun _ _ _ ha => ha
  · exact fun _ c _ _ _ _ ih hcs ha => ih (fun c' hc' => hcs c' (List.mem_cons_of_mem c hc')) ha
  · exact fun _ c _ _ _ _ hc hnode ih hcs ha =>
      ih (fun c' hc' => hcs c' (List.mem_cons_of_mem c hc'))
        (hnode (hcs c List.mem_cons_self hc) ha)
  · exact fun _ h cs _ _ _ ih ht ha => ih (child h cs ht) ha
  · exact fun _ h cs _ _ _ _ ih hadd ht ha => adds _ _ _ _ _ _ ht hadd (ih (child h cs ht) ha)

/-- One node is lowered to one node. -/
theorem length_lowerNode (t : Concrete) (parent : Option String) (a : Arena) :
    (lowerNode d parent t a).2.length = 1 := by
  refine lowering_induction d (P := fun _ _ _ r => r.2.length = 1)
    (Q := fun _ cs _ r => r.2.length = (cs.filter Concrete.isSignificant).length)
    ?_ ?_ ?_ ?_ ?_ t parent a
  · exact fun _ _ => rfl
  · intro _ c cs _ r hc h
    rwa [List.filter_cons_of_neg (by rw [hc]; exact Bool.false_ne_true)]
  · intro _ c cs _ r r' hc h h'
    rw [List.filter_cons_of_pos hc, List.length_append, h, h', List.length_cons, Nat.add_comm]
  · intro _ h cs _ r hwrap hr
    simp only [Concrete.isWrapper, Bool.and_eq_true, beq_iff_eq] at hwrap
    exact hr.trans hwrap.2
  · exact fun _ _ _ _ _ _ _ _ _ => rfl

end AnySpans.Syntax
