import AnySpans.Proofs.Lowering
import Mathlib.Logic.Relation

/-!
# Comments and parentheses

Comments that are put between the nodes of a concrete tree, and parentheses around its nodes
(`Concrete.Pads`), leave no trace in the lowered tree (`lower_padded`).  Lowering sees the children of
a node through those that count, the fields they fill and whether the key of a pair is computed; two
lists of children that agree in this are `Alike`.

A pair tells by the kind of its key whether the key is computed, and parentheses hide that kind; so
the key itself is not put in parentheses.
-/

namespace AnySpans.Syntax

open AnySpans.Text

namespace Concrete

/-- The node, filling the given fields of its parent. -/
def withFields (fields : List String) : Concrete → Concrete
  | node h cs => node { h with fields } cs

/-- Whether nodes of a kind are members of an object with a key. -/
def isPair (kind : String) : Prop := kind = "pair" ∨ kind = "pair_pattern"

/-- A tree has one comment or one pair of parentheses more than another one. -/
inductive Pads : Concrete → Concrete → Prop
  /-- A comment, which fills no field, is put between the children of a node. -/
  | comment {h : Heading} {before after : List Concrete} {e : Concrete} :
    e.heading.extra = true → e.heading.fields = [] →
    Pads (node h (before ++ after)) (node h (before ++ e :: after))
  /-- A child that counts is put in parentheses, which fill its fields instead of it. -/
  | parentheses {h p : Heading} {before after opening closing : List Concrete} {c : Concrete} :
    c.isSignificant = true → (isPair h.kind → "key" ∉ c.heading.fields) →
    p.kind = "parenthesized_expression" → p.named = true → p.extra = false →
    p.fields = c.heading.fields → (∀ e ∈ opening ++ closing, e.isSignificant = false) →
    Pads (node h (before ++ c :: after))
      (node h (before ++ node p (opening ++ c.withFields [] :: closing) :: after))
  | inside {h : Heading} {before after : List Concrete} {c c' : Concrete} : Pads c c' →
    Pads (node h (before ++ c :: after)) (node h (before ++ c' :: after))

theorem Pads.heading_eq {t t' : Concrete} (h : Pads t t') : t'.heading = t.heading := by
  cases h <;> rfl

end Concrete

/-! ### Children that are lowered alike -/

/-- Whether the key among some children is computed. -/
def hasComputedKey (cs : List Concrete) : Bool :=
  (fieldChild cs "key").any fun c => c.heading.kind == "computed_property_name"

/-- A node with the given heading does not tell two lists of children apart. -/
structure Alike (h : Heading) (cs cs' : List Concrete) : Prop where
  lowered : ∀ d parent a, lowerAll d parent cs' a = lowerAll d parent cs a
  fields : ∀ ids field, fieldId cs' ids field = fieldId cs ids field
  computed : Concrete.isPair h.kind → hasComputedKey cs' = hasComputedKey cs
  count : (cs'.filter Concrete.isSignificant).length = (cs.filter Concrete.isSignificant).length

section

variable {h : Heading} {c c' : Concrete} {cs cs' : List Concrete} {field : String}

theorem fieldId_cons_congr (hf : c'.heading.fields = c.heading.fields)
    (hs : c'.isSignificant = c.isSignificant)
    (hcs : ∀ ids, fieldId cs' ids field = fieldId cs ids field) (ids : List NodeId) :
    fieldId (c' :: cs') ids field = fieldId (c :: cs) ids field := by
  simp only [fieldId, hf, hs, hcs]

theorem hasComputedKey_cons_of_mem (hc : "key" ∈ c.heading.fields) (cs : List Concrete) :
    hasComputedKey (c :: cs) = (c.heading.kind == "computed_property_name") := by
  have : c.heading.fields.contains "key" = true := List.contains_iff_mem.2 hc
  simp only [hasComputedKey, fieldChild, List.find?_cons, this, Option.any_some]

theorem hasComputedKey_cons_of_not_mem (hc : "key" ∉ c.heading.fields) (cs : List Concrete) :
    hasComputedKey (c :: cs) = hasComputedKey cs := by
  have : c.heading.fields.contains "key" = false := by simpa using hc
  simp only [hasComputedKey, fieldChild, List.find?_cons, this]

theorem Alike.cons (hcs : Alike h cs cs') (c : Concrete) : Alike h (c :: cs) (c :: cs') where
  lowered d parent a := by simp only [lowerAll, hcs.lowered]
  fields ids field := fieldId_cons_congr rfl rfl (hcs.fields · field) ids
  computed hp := by
    by_cases hc : "key" ∈ c.heading.fields
    · rw [hasComputedKey_cons_of_mem hc, hasComputedKey_cons_of_mem hc]
    · rw [hasComputedKey_cons_of_not_mem hc, hasComputedKey_cons_of_not_mem hc, hcs.computed hp]
  count := by
    rw [List.filter_cons, List.filter_cons]
    split
    · exact congrArg (· + 1) hcs.count
    · exact hcs.count

theorem Alike.prepend (hcs : Alike h cs cs') (before : List Concrete) :
    Alike h (before ++ cs) (before ++ cs') := by
  induction before with
  | nil => exact hcs
  | cons c before ih => exact ih.cons c

/-- A node is lowered alike with either of two lists of children it does not tell apart. -/
theorem Alike.lowerNode_eq (hcs : Alike h cs cs') (d : Document) (parent : Option String)
    (a : Arena) : lowerNode d parent (.node h cs') a = lowerNode d parent (.node h cs) a := by
  have hwrap : Concrete.isWrapper h cs' = Concrete.isWrapper h cs := by
    simp only [Concrete.isWrapper, hcs.count]
  have hcomputed := hcs.computed
  simp only [hasComputedKey] at hcomputed
  have hshape : ∀ ids, shapeOf h.kind cs' ids = shapeOf h.kind cs ids := by
    intro ids
    simp only [shapeOf, hcs.fields]
    split
    case h_1 hk => rw [hcomputed (.inl hk)]
    case h_2 hk => rw [hcomputed (.inr hk)]
    all_goals rfl
  have hadd : ∀ ids a, addNode d parent h cs' ids a = addNode d parent h cs ids a := by
    intro ids a
    simp only [addNode, hcs.fields]
    split
    case h_8 => rw [hshape]
    all_goals rfl
  simp only [lowerNode, hwrap, hcs.lowered, hadd]

/-- A comment more is not seen. -/
theorem alike_comment {e : Concrete} (he : e.heading.extra = true) (hf : e.heading.fields = [])
    (cs : List Concrete) : Alike h cs (e :: cs) := by
  have hs : e.isSignificant = false := by simp [Concrete.isSignificant, he]
  refine ⟨fun d parent a => ?_, fun ids field => ?_, fun _ => ?_, ?_⟩
  · simp [lowerAll, hs]
  · simp [fieldId, hs, hf]
  · exact hasComputedKey_cons_of_not_mem (by simp [hf]) cs
  · rw [List.filter_cons_of_neg (by simp [hs])]

/-- A child is not told apart from one that is lowered alike, counts as it does, fills its fields and
is of its kind, unless it is no key of a pair. -/
theorem alike_child (hlower : ∀ d parent a, lowerNode d parent c' a = lowerNode d parent c a)
    (hs : c'.isSignificant = c.isSignificant) (hf : c'.heading.fields = c.heading.fields)
    (hk : Concrete.isPair h.kind → "key" ∈ c.heading.fields → c'.heading.kind = c.heading.kind)
    (cs : List Concrete) : Alike h (c :: cs) (c' :: cs) := by
  refine ⟨fun d parent a => ?_, fun ids field => ?_, fun hp => ?_, ?_⟩
  · simp only [lowerAll, hs, hlower]
  · exact fieldId_cons_congr hf hs (fun _ => rfl) ids
  · by_cases hc : "key" ∈ c.heading.fields
    · rw [hasComputedKey_cons_of_mem hc, hasComputedKey_cons_of_mem (hf ▸ hc), hk hp hc]
    · rw [hasComputedKey_cons_of_not_mem hc, hasComputedKey_cons_of_not_mem (hf ▸ hc)]
  · rw [List.filter_cons, List.filter_cons, hs]
    split <;> rfl

end

/-! ### Parentheses -/

section

variable {d : Document} {parent : Option String} {a : Arena} {c : Concrete}

theorem lowerAll_of_insignificant {cs : List Concrete} (h : ∀ e ∈ cs, e.isSignificant = false) :
    lowerAll d parent cs a = (a, []) := by
  induction cs with
  | nil => rfl
  | cons e cs ih =>
    have ih := ih fun e' he' => h e' (List.mem_cons_of_mem e he')
    simp [lowerAll, h e List.mem_cons_self, ih]

/-- Of children among which only one counts, only that one is lowered. -/
theorem lowerAll_single {opening closing : List Concrete} (hc : c.isSignificant = true)
    (h : ∀ e ∈ opening ++ closing, e.isSignificant = false) :
    lowerAll d parent (opening ++ c :: closing) a = lowerNode d parent c a := by
  induction opening with
  | nil =>
    have hnode : lowerAll d parent closing (lowerNode d parent c a).1 =
        ((lowerNode d parent c a).1, []) := lowerAll_of_insignificant h
    simp [lowerAll, hc, hnode]
  | cons e opening ih =>
    have ih := ih fun e' he' => h e' (List.mem_cons_of_mem e he')
    simp [lowerAll, h e List.mem_cons_self, ih]

/-- Which fields of its parent a node fills does not matter for the node itself. -/
theorem lowerNode_withFields (fields : List String) :
    lowerNode d parent (c.withFields fields) a = lowerNode d parent c a := by
  cases c
  rfl

/-- A node in parentheses is lowered as it is without. -/
theorem lowerNode_parentheses {p : Heading} {opening closing : List Concrete}
    (hc : c.isSignificant = true) (hp : p.kind = "parenthesized_expression")
    (h : ∀ e ∈ opening ++ closing, e.isSignificant = false) :
    lowerNode d parent (.node p (opening ++ c.withFields [] :: closing)) a =
      lowerNode d parent c a := by
  have hc' : (c.withFields []).isSignificant = true := by
    cases c
    exact hc
  have hwrap : Concrete.isWrapper p (opening ++ c.withFields [] :: closing) = true := by
    have hnone : ∀ es ⊆ opening ++ closing, es.filter Concrete.isSignificant = [] :=
      fun es hes => List.filter_eq_nil_iff.2 fun e he => by simp [h e (hes he)]
    simp [Concrete.isWrapper, hp, hc', hnone opening (List.subset_append_left _ _),
      hnone closing (List.subset_append_right _ _)]
  rw [lowerNode, if_pos hwrap, lowerAll_single hc' h, lowerNode_withFields]

end

/-! ### Lowering padded trees -/

/-- A comment or parentheses more make no difference to what a node is lowered to. -/
theorem lowerNode_of_pads {t t' : Concrete} (h : t.Pads t') (d : Document) (parent : Option String)
    (a : Arena) : lowerNode d parent t' a = lowerNode d parent t a := by
  induction h generalizing d parent a with
  | @comment h before after e he hf =>
    exact ((alike_comment he hf after).prepend before).lowerNode_eq d parent a
  | @parentheses h p before after opening closing c hc hkey hp hnamed hextra hfields hnone =>
    have hs : (Concrete.node p (opening ++ c.withFields [] :: closing)).isSignificant =
        c.isSignificant := by
      rw [hc]
      simp [Concrete.isSignificant, Concrete.heading, hnamed, hextra]
    have := alike_child (h := h) (fun _ _ _ => lowerNode_parentheses hc hp hnone) hs hfields
      (fun hpair hmem => absurd hmem (hkey hpair)) after
    exact (this.prepend before).lowerNode_eq d parent a
  | @inside h before after c c' hpads ih =>
    have hheading := hpads.heading_eq
    have := alike_child (h := h) ih (by simp only [Concrete.isSignificant, hheading])
      (by rw [hheading]) (fun _ _ => by rw [hheading]) after
    exact (this.prepend before).lowerNode_eq d parent a

/-- Comments and parentheses, as many as there may be, change nothing in the lowered tree; so the
same identifiers are found in it, whatever lines are looked at. -/
theorem lower_padded {t t' : Concrete} (h : Relation.ReflTransGen Concrete.Pads t t')
    (text : List Char) : lower text t' = lower text t ∧ ∀ interest,
      findIdentifiers (lower text t') interest = findIdentifiers (lower text t) interest := by
  have hlower : lower text t' = lower text t := by
    induction h with
    | refl => rfl
    | tail _ hpads ih =>
      rw [← ih]
      simp only [lower, lowerNode_of_pads hpads]
  exact ⟨hlower, fun interest => by rw [hlower]⟩

/-! ### An object in parentheses -/

namespace InParentheses

/-- A node without a flaw. -/
def heading (kind : String) (fields : List String) (start stop : Nat) : Heading :=
  ⟨kind, true, false, none, false, ⟨start, stop⟩, fields⟩

/-- A literal token. -/
def token (text : String) (start stop : Nat) : Concrete :=
  .node { heading text [] start stop with named := false } []

def note : Concrete := .node { heading "comment" [] 6 10 with extra := true } []

def text : List Char := "{x} = /**/({x: y})".toList

/-- The pattern `{x}` on the left. -/
def target : Concrete :=
  .node (heading "object_pattern" ["left"] 0 3)
    [.node (heading "shorthand_property_identifier_pattern" [] 1 2) []]

/-- The object `{x: y}` on the right. -/
def object : Concrete :=
  .node (heading "object" ["right"] 11 17)
    [.node (heading "pair" [] 12 16)
      [.node (heading "property_identifier" ["key"] 12 13) [],
        .node (heading "identifier" ["value"] 15 16) []]]

/-- The assignment without the comment and the parentheses. -/
def bare : Concrete :=
  .node (heading "assignment_expression" [] 0 18) [target, token "=" 4 5, object]

def padded : Concrete :=
  .node (heading "assignment_expression" [] 0 18)
    [target, token "=" 4 5, note,
      .node (heading "parenthesized_expression" ["right"] 10 18)
        [token "(" 10 11, object.withFields [], token ")" 17 18]]

theorem pads_bare : Relation.ReflTransGen Concrete.Pads bare padded := by
  have hnote : bare.Pads (.node (heading "assignment_expression" [] 0 18)
      ([target, token "=" 4 5] ++ note :: [object])) :=
    @Concrete.Pads.comment _ [target, token "=" 4 5] [object] _ rfl rfl
  refine (Relation.ReflTransGen.single hnote).tail ?_
  exact @Concrete.Pads.parentheses _ _ [target, token "=" 4 5, note] [] [token "(" 10 11]
    [token ")" 17 18] _ rfl
    (fun h => by simp [Concrete.isPair, heading] at h) rfl rfl rfl rfl (by decide)

end InParentheses

open InParentheses in
/-- The key of the object only names a slot, and is not found, though the object stands in
parentheses. -/
theorem lower_padded_object : Relation.ReflTransGen Concrete.Pads bare padded ∧
    lower text padded = lower text bare ∧
    (findIdentifiers (lower text padded) none).map
      (fun s => s.candidates.map fun c => (c.name, c.position)) =
      .ok [("x", ⟨0, 1⟩), ("x", ⟨0, 1⟩), ("y", ⟨0, 15⟩)] := by
  refine ⟨pads_bare, (lower_padded pads_bare text).1, ?_⟩
  rw [(lower_padded pads_bare text).2]
  decide +kernel

end AnySpans.Syntax
