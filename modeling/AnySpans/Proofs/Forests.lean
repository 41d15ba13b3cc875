import AnySpans.Proofs.Arenas
import AnySpans.Proofs.Lowering
import AnySpans.Proofs.Offsets

/-!
# Arenas as forests

Lowering goes through a concrete tree from the bottom and keeps a stack of finished nodes that have
no parent yet.  An arena is a `Forest` over such a stack when every other node is a child of one node,
once, and comes before it.  Adding a node over the finished children keeps the arena a forest
(`Forest.push`) as long as there is an id for it; so the lowered tree of a concrete tree whose names
are leaves is one over its root if it has no more than `2 ^ 32` nodes (`forest_lower`), and all of its
nodes are reached (`Forest.reaches`).
-/

namespace AnySpans.Syntax

open AnySpans.Text

/-! ### Forests -/

/-- The nodes `tops` have no parent; every other node is a child of one node, once, and comes before
it. -/
structure Forest (a : Arena) (tops : List NodeId) : Prop where
  once : ((tops ++ a.toList.flatMap Node.children).map UInt32.toNat).Perm (List.range a.size)
  below : ∀ (i : Nat) (n : Node), a[i]? = some n → ∀ c ∈ n.children, c.toNat < i

namespace Forest

variable {d : Document} {a a' : Arena} {tops tops' ids : List NodeId}

theorem empty : Forest #[] [] where
  once := .refl _
  below _ _ h := by cases h

theorem perm (h : Forest a tops) (hp : tops.Perm tops') : Forest a tops' :=
  { h with once := ((hp.symm.append_right _).map _).trans h.once }

/-- Each node has an id of its own, so there are no more nodes than ids. -/
theorem size_le (h : Forest a tops) : a.size ≤ 2 ^ 32 := by
  by_contra hlt
  have hmem := h.once.mem_iff.2 (List.mem_range.2 (Nat.not_le.1 hlt))
  obtain ⟨i, -, hi⟩ := List.mem_map.1 hmem
  exact absurd hi (Nat.ne_of_lt i.toNat_lt)

/-- A finished node is in the arena. -/
theorem lt_size (h : Forest a tops) {i : NodeId} (hi : i ∈ tops) : i.toNat < a.size :=
  List.mem_range.1 (h.once.mem_iff.1 (List.mem_map_of_mem (List.mem_append_left _ hi)))

/-- A node over finished ones takes their place. -/
theorem push (h : Forest a (tops ++ ids)) (hfits : a.size < 2 ^ 32) (shape : Shape) (r : Range) :
    Forest (a.push ⟨shape, r, ids⟩) (tops ++ [a.nextId]) where
  once := by
    rw [Array.toList_push, List.flatMap_append, List.flatMap_singleton, Array.size_push,
      List.range_succ]
    refine List.perm_iff_count.2 fun i => ?_
    have := h.once.count_eq i
    simp only [List.map_append, List.map_singleton, Arena.toNat_nextId hfits,
      List.count_append] at this ⊢
    omega
  below i n hn c hc := by
    rw [Array.getElem?_push] at hn
    split at hn
    · rename_i hi
      obtain rfl := Option.some.inj hn
      rw [hi]
      exact h.lt_size (List.mem_append_right _ hc)
    · exact h.below i n hn c hc

/-- An identifier has no children. -/
theorem pushLeaf (h : Forest a tops) (hfits : a.size < 2 ^ 32) (name : String) (r : Range) :
    Forest (a.push ⟨.identifier name, r, []⟩) (tops ++ [a.nextId]) := by
  rw [← List.append_nil tops] at h
  exact h.push hfits _ r

theorem addShorthand (h : Forest a tops) (hfits : a.size + 2 < 2 ^ 32) (s : Span) :
    Forest (Syntax.addShorthand d a s).1 (tops ++ [(Syntax.addShorthand d a s).2]) := by
  have hkey := h.pushLeaf (Nat.lt_of_add_right_lt hfits) (d.slice s) (d.range s)
  have hvalue := hkey.pushLeaf (by rw [Array.size_push]; exact Nat.lt_of_succ_lt hfits) (d.slice s)
    (d.range s)
  rw [List.append_assoc] at hvalue
  exact hvalue.push (by simpa only [Array.size_push] using hfits) _ _

/-- Adding a node over the last finished ones keeps the arena a forest. -/
theorem adds {parent : Option String} {h : Heading} {cs : List Concrete} {added : Arena × NodeId}
    (hf : Forest a (tops ++ ids)) (hadd : Adds d parent h cs ids a added)
    (hfits : added.1.size ≤ 2 ^ 32) (hleaf : h.kind ∈ Concrete.nameKinds → ids = []) :
    Forest added.1 (tops ++ [added.2]) := by
  cases hadd with
  | identifier hk _ =>
    rw [addIdentifier, Arena.add, Array.size_push] at hfits
    rw [hleaf hk, List.append_nil] at hf
    exact hf.pushLeaf hfits _ _
  | member hk _ =>
    simp only [Syntax.addShorthand, addIdentifier, Arena.add, Array.size_push] at hfits
    rw [hleaf hk, List.append_nil] at hf
    exact hf.addShorthand (by omega) h.span
  | @defaulted sides name at' below _ _ _ =>
    simp only [Arena.add, Array.size_push] at hfits
    have hassign : Forest (a.push (assignment d h ids sides)) (tops ++ [a.nextId]) :=
      hf.push (by omega) _ _
    have hkey := hassign.pushLeaf (by rw [Array.size_push]; omega) name at'
    rw [List.append_assoc] at hkey
    -- the key is made last and stands first
    have hkey := hkey.perm ((List.Perm.swap (Arena.nextId (a.push (assignment d h ids sides)))
      a.nextId []).append_left tops)
    exact hkey.push (by simp only [Array.size_push]; omega) _ _
  | node _ _ _ _ =>
    rw [Arena.add, Array.size_push] at hfits
    exact hf.push hfits _ _

/-- Lowering a tree whose names are leaves adds its node to the finished ones, if there are ids for
all nodes. -/
theorem lowerNode {t : Concrete} (ht : t.NamesAreLeaves) (parent : Option String)
    (h : Forest a tops) (hfits : (Syntax.lowerNode d parent t a).1.size ≤ 2 ^ 32) :
    Forest (Syntax.lowerNode d parent t a).1 (tops ++ (Syntax.lowerNode d parent t a).2) := by
  refine lowering_induction_of_fits d
    (P := fun _ t a r => t.NamesAreLeaves → ∀ tops, Forest a tops → Forest r.1 (tops ++ r.2))
    (Q := fun _ cs a r => (∀ c ∈ cs, c.NamesAreLeaves) → ∀ tops, Forest a tops →
      Forest r.1 (tops ++ r.2) ∧ (cs = [] → r.2 = []))
    ?_ ?_ ?_ ?_ ?_ t parent a hfits ht tops h
  · intro _ a _ tops h
    exact ⟨(List.append_nil tops).symm ▸ h, fun _ => rfl⟩
  · intro _ c cs a r _ ih hcs tops h
    exact ⟨(ih (fun c' hc' => hcs c' (List.mem_cons_of_mem c hc')) tops h).1,
      fun h => absurd h (List.cons_ne_nil c cs)⟩
  · intro _ c cs a r r' _ hnode ih hcs tops h
    have hfirst := hnode (hcs c List.mem_cons_self) tops h
    have hrest := (ih (fun c' hc' => hcs c' (List.mem_cons_of_mem c hc')) _ hfirst).1
    rw [List.append_assoc] at hrest
    exact ⟨hrest, fun h => absurd h (List.cons_ne_nil c cs)⟩
  · intro _ h cs a r _ ih ht tops hf
    exact (ih ht.child tops hf).1
  · intro parent h cs a r added _ hfits ih hadd ht tops hf
    obtain ⟨hbelow, hnone⟩ := ih ht.child tops hf
    exact hbelow.adds hadd hfits fun hk => hnone (ht.children_eq hk)

variable {t : Tree} {i : NodeId}

/-- A node that is not a top is a child of a later one. -/
theorem exists_parent (h : Forest t.nodes tops) (hi : i.toNat < t.size) (htop : i ∉ tops) :
    ∃ (j : NodeId) (n : Node), i.toNat < j.toNat ∧ t.get? j = some n ∧ i ∈ n.children := by
  obtain ⟨c, hc, heq⟩ := List.mem_map.1 (h.once.mem_iff.2 (List.mem_range.2 hi))
  obtain rfl := UInt32.toNat_inj.1 heq
  obtain ⟨n, hn, hc⟩ := List.mem_flatMap.1 ((List.mem_append.1 hc).resolve_left htop)
  obtain ⟨j, hj⟩ := List.mem_iff_getElem?.1 hn
  rw [Array.getElem?_toList] at hj
  have hlt : j < 2 ^ 32 := Nat.lt_of_lt_of_le (Array.getElem?_eq_some_iff.1 hj).1 h.size_le
  have hid : (UInt32.ofNat j).toNat = j := UInt32.toNat_ofNat_of_lt' hlt
  refine ⟨.ofNat j, n, hid.symm ▸ h.below j n hj c hc, ?_, hc⟩
  rw [Tree.get?, hid]
  exact hj

/-- The only top is the last node. -/
theorem succ_top (h : Forest t.nodes [i]) : i.toNat + 1 = t.size := by
  have hi : i.toNat < t.size := h.lt_size List.mem_cons_self
  by_contra hne
  have hlast : t.size - 1 < t.size := Nat.sub_lt (Nat.zero_lt_of_lt hi) Nat.zero_lt_one
  have hid : (UInt32.ofNat (t.size - 1)).toNat = t.size - 1 :=
    UInt32.toNat_ofNat_of_lt' (Nat.lt_of_lt_of_le hlast h.size_le)
  obtain ⟨j, n, hlt, hj, -⟩ := h.exists_parent (hid.symm ▸ hlast) fun hmem => by
    rw [← List.mem_singleton.1 hmem, hid] at hne
    exact hne (Nat.succ_pred_eq_of_pos (Nat.zero_lt_of_lt hlast))
  have hj : j.toNat < t.size := (Array.getElem?_eq_some_iff.1 hj).1
  omega

/-- All nodes of a forest with one top are below it. -/
theorem reaches (h : Forest t.nodes [t.root]) (hi : i.toNat < t.size) : t.Reaches i := by
  -- a parent comes later, so the induction is on how many nodes come later
  induction hm : t.size - i.toNat using Nat.strong_induction_on generalizing i with
  | _ m ih =>
    by_cases htop : i = t.root
    · exact htop ▸ .root
    · obtain ⟨j, n, hlt, hj, hc⟩ := h.exists_parent hi fun hmem => htop (List.mem_singleton.1 hmem)
      have hjlt : j.toNat < t.size := (Array.getElem?_eq_some_iff.1 hj).1
      exact .child (ih (t.size - j.toNat) (hm ▸ Nat.sub_lt_sub_left hi hlt) hjlt rfl) hj hc

end Forest

/-- The lowered tree of a concrete tree whose names are leaves is one over its root, if there are ids
for all nodes. -/
theorem forest_lower (text : List Char) {t : Concrete} (ht : t.NamesAreLeaves)
    (hfits : (lower text t).size ≤ 2 ^ 32) :
    Forest (lower text t).nodes [(lower text t).root] := by
  obtain ⟨root, hroot⟩ := List.length_eq_one_iff.1
    (length_lowerNode (d := .ofText text) t none #[])
  have hforest := Forest.empty.lowerNode (d := .ofText text) ht none hfits
  have hlowered : (lower text t).root = root := by
    simp only [lower, hroot, List.headD_cons]
  rw [hroot] at hforest
  rw [hlowered]
  exact hforest

/-! ### An object that is taken apart -/

namespace Destructuring

/-- A node without a flaw. -/
def named (kind : String) (fields : List String) (start stop : Nat) (children : List Concrete) :
    Concrete :=
  .node ⟨kind, true, false, none, false, ⟨start, stop⟩, fields⟩ children

def text : List Char := "({é, b = 1, c: d} =\n{e})".toList

/-- The pattern on the left. -/
def pattern : Concrete :=
  named "object_pattern" ["left"] 1 18 [
    named "shorthand_property_identifier_pattern" [] 2 4 [],
    named "object_assignment_pattern" [] 6 11 [
      named "shorthand_property_identifier_pattern" ["left"] 6 7 [],
      named "number" ["right"] 10 11 []],
    named "pair_pattern" [] 13 17 [
      named "property_identifier" ["key"] 13 14 [],
      named "identifier" ["value"] 16 17 []]]

/-- The whole text; the assignment stands in parentheses. -/
def tree : Concrete :=
  named "program" [] 0 25 [
    named "parenthesized_expression" [] 0 25 [
      named "assignment_expression" [] 1 24 [
        pattern,
        named "object" ["right"] 21 24 [named "shorthand_property_identifier" [] 22 23 []]]]]

theorem namesAreLeaves_tree : tree.NamesAreLeaves := by decide +kernel

end Destructuring

/-!
### Objects with many members

Each member of `{a,a,…}` is two bytes and becomes three nodes, so there are texts shorter than `2 ^ 32`
bytes that become more nodes than there are ids.
-/

namespace Members

open Destructuring

def text (m : Nat) : List Char := '{' :: (List.replicate m ['a', ',']).flatten ++ ['}']

def member (i : Nat) : Concrete :=
  named "shorthand_property_identifier" [] (2 * i + 1) (2 * i + 2) []

def tree (m : Nat) : Concrete := named "object" [] 0 (2 * m + 2) ((List.range m).map member)

/-- A number of members for which the object gets the id of the first of them. -/
def count : Nat := 1431655766

/-- All characters of such a text are of one byte. -/
theorem utf8Size_of_mem_text {m : Nat} {c : Char} (hc : c ∈ text m) : c.utf8Size = 1 := by
  simp only [text, List.mem_append, List.mem_cons, List.mem_flatten, List.mem_replicate,
    List.not_mem_nil, or_false] at hc
  obtain (rfl | ⟨cs, ⟨-, rfl⟩, hc⟩) | rfl := hc
  · rfl
  · simp only [List.mem_cons, List.not_mem_nil, or_false] at hc
    obtain rfl | rfl := hc <;> rfl
  · rfl

theorem length_text (m : Nat) : (text m).length = 2 * m + 2 := by
  simp [text, Nat.mul_comm]

theorem byteLength_text (m : Nat) : byteLength (text m) = 2 * m + 2 :=
  (byteLength_eq_length fun _ => utf8Size_of_mem_text).trans (length_text m)

theorem boundary_text {m i : Nat} (hi : i ≤ 2 * m + 2) : Boundary (text m) i :=
  boundary_of_le_length (fun _ => utf8Size_of_mem_text) ((length_text m).symm ▸ hi)

variable {d : Document} (parent : Option String) (m : Nat) (a : Arena)

theorem lowerNode_member : lowerNode d parent (member m) a =
    ((addShorthand d a ⟨2 * m + 1, 2 * m + 2⟩).1, [(addShorthand d a ⟨2 * m + 1, 2 * m + 2⟩).2]) :=
  rfl

theorem size_lowerAll (is : List Nat) :
    (lowerAll d parent (is.map member) a).1.size = a.size + 3 * is.length := by
  induction is generalizing a with
  | nil => rfl
  | cons i is ih =>
    have hsig : (member i).isSignificant = true := rfl
    rw [List.map_cons, lowerAll, if_pos hsig, lowerNode_member]
    dsimp only
    rw [ih, List.length_cons]
    simp only [addShorthand, addIdentifier, Arena.add, Array.size_push]
    omega

/-- The object is the last node, after three for each member. -/
theorem lower_tree (text : List Char) : lower text (tree m) =
    let (a, ids) := lowerAll (.ofText text) (some "object") ((List.range m).map member) #[]
    ⟨a.push ⟨.objectExpression ids, (Document.ofText text).range ⟨0, 2 * m + 2⟩, ids⟩, a.nextId⟩ :=
  rfl

theorem size_lower (text : List Char) : (lower text (tree m)).size = 3 * m + 1 := by
  rw [lower_tree, Tree.size, Array.size_push, size_lowerAll, List.length_range]
  exact congrArg (· + 1) (Nat.zero_add _)

theorem root_lower (text : List Char) : (lower text (tree m)).root = .ofNat (3 * m) := by
  rw [lower_tree]
  dsimp only
  rw [Arena.nextId, size_lowerAll, List.length_range]
  exact congrArg UInt32.ofNat (Nat.zero_add _)

/-- The first member. -/
def first : Outline := .node 2 [.node 0 [], .node 1 []]

variable {m} in
/-- The nodes of the first member stay where they are. -/
theorem get?_lower (hm : 0 < m) (text : List Char) {i : NodeId} {n : Node}
    (h : (Arena.tree (addShorthand (.ofText text) #[] ⟨1, 2⟩).1).get? i = some n) :
    (lower text (tree m)).get? i = some n := by
  obtain ⟨m, rfl⟩ := Nat.exists_eq_add_one.2 hm
  have hsig : (member 0).isSignificant = true := rfl
  rw [lower_tree, List.range_succ_eq_map, List.map_cons, lowerAll, if_pos hsig, lowerNode_member]
  exact Arena.get?_push ((grows_lowerAll _ _ _).keeps i n h)

variable {m} in
/-- If the object gets the id of the first member, only this member lies below the root. -/
theorem shaped_lower (hm : 0 < m) (text : List Char) (hroot : (lower text (tree m)).root = 2) :
    (lower text (tree m)).Shaped first := by
  refine ⟨hroot.symm, ⟨⟨_, get?_lower hm text rfl, rfl⟩, ?_⟩, by decide⟩
  exact ⟨⟨⟨_, get?_lower hm text rfl, rfl⟩, trivial⟩, ⟨⟨_, get?_lower hm text rfl, rfl⟩, trivial⟩,
    trivial⟩

theorem namesAreLeaves_tree : (tree m).NamesAreLeaves := by
  intro u hu hk
  obtain rfl | hu := List.mem_cons.1 hu
  · exact absurd hk (show "object" ∉ Concrete.nameKinds by decide)
  · obtain ⟨c, hc, hu⟩ := Concrete.mem_nodesOf.1 hu
    obtain ⟨i, -, rfl⟩ := List.mem_map.1 hc
    obtain rfl | hu := List.mem_cons.1 hu
    · rfl
    · cases hu

end Members

end AnySpans.Syntax
