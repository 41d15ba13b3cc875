import AnySpans.Documents.Snapshot

/-!
# Tables by document

A `Table` keeps at most one value for each document.  `get?` is the view of a table: `put` and
`erase` are described by what they change in it.
-/

namespace AnySpans.Documents

/-- Values of documents, in the order in which their documents came in. -/
structure Table (β : Type) where
  rows : List (Key × β)
deriving Repr, Inhabited

namespace Table

variable {β : Type}

/-- The table without values. -/
def empty : Table β := ⟨[]⟩

instance : EmptyCollection (Table β) := ⟨empty⟩

variable (t : Table β)

/-- The value of a document. -/
def get? (k : Key) : Option β := (t.rows.find? fun r => r.1 == k).map (·.2)

def contains (k : Key) : Bool := (t.get? k).isSome

def putRow (k : Key) (b : β) : List (Key × β) → List (Key × β)
  | [] => [(k, b)]
  | r :: rs => if r.1 == k then (r.1, b) :: rs else r :: putRow k b rs

/-- Gives a document a value, instead of the one it had. -/
def put (k : Key) (b : β) : Table β := ⟨putRow k b t.rows⟩

/-- Takes a document's value away. -/
def erase (k : Key) : Table β := ⟨t.rows.filter fun r => !r.1 == k⟩

/-- Changes a document's value, if it has one. -/
def modify (k : Key) (f : β → β) : Table β :=
  match t.get? k with
  | some b => t.put k (f b)
  | none => t

def keys : List Key := t.rows.map (·.1)

def values : List β := t.rows.map (·.2)

def size : Nat := t.rows.length

def isEmpty : Bool := t.rows.isEmpty

/-! ### What the operations change -/

@[simp] theorem get?_empty (k : Key) : (∅ : Table β).get? k = none := rfl

private theorem find?_putRow (k j : Key) (b : β) (rs : List (Key × β)) :
    ((putRow k b rs).find? fun r => r.1 == j).map (·.2)
      = if (k == j) = true then some b else (rs.find? fun r => r.1 == j).map (·.2) := by
  induction rs with
  | nil => cases h : (k == j) <;> simp [putRow, h]
  | cons r rs ih =>
    simp only [putRow]
    by_cases hr : (r.1 == k) = true
    · have hc : (r.1 == j) = (k == j) := BEq.congr_left hr
      cases hk : (k == j) <;> simp [hr, hc, hk]
    · cases hj : (r.1 == j) with
      | true =>
        have : (k == j) = false := by
          cases hk : (k == j) with
          | false => rfl
          | true =>
            exact absurd (Key.beq_iff.2 ((Key.beq_iff.1 hj).trans (Key.beq_iff.1 hk).symm)) hr
        simp [hr, hj, this]
      | false => simpa [hr, hj] using ih

/-- A document's value does not depend on how its path is spelt. -/
theorem get?_congr {k j : Key} (h : (k == j) = true) : t.get? k = t.get? j := by
  have hrow : ∀ r : Key × β, (r.1 == k) = (r.1 == j) := fun r => BEq.congr_right h
  simp only [get?, hrow]

theorem get?_put (k j : Key) (b : β) :
    (t.put k b).get? j = if (k == j) = true then some b else t.get? j :=
  find?_putRow k j b t.rows

theorem get?_erase (k j : Key) :
    (t.erase k).get? j = if (k == j) = true then none else t.get? j := by
  simp only [get?, erase]
  by_cases h : (k == j) = true
  · rw [if_pos h, List.find?_filter, List.find?_eq_none.2, Option.map_none]
    intro r _ hr
    obtain ⟨hk, hj⟩ : (r.1 == k) = false ∧ (r.1 == j) = true := by simpa using hr
    have := Key.beq_iff.2 ((Key.beq_iff.1 hj).trans (Key.beq_iff.1 h).symm)
    simp [hk] at this
  · rw [if_neg h, List.find?_filter]
    congr 2
    funext r
    by_cases hr : (r.1 == j) = true
    · have : (r.1 == k) = false := by
        cases hk : (r.1 == k) with
        | false => rfl
        | true => exact absurd (Key.beq_iff.2 ((Key.beq_iff.1 hk).symm.trans (Key.beq_iff.1 hr))) h
      simp [hr, this]
    · simp [hr]

theorem get?_modify (k j : Key) (f : β → β) :
    (t.modify k f).get? j = if (k == j) = true then (t.get? j).map f else t.get? j := by
  unfold modify
  split
  · rename_i b hb
    rw [get?_put]
    split
    · rename_i h
      rw [← t.get?_congr h, hb, Option.map_some]
    · rfl
  · rename_i hb
    split
    · rename_i h
      rw [← t.get?_congr h, hb, Option.map_none]
    · rfl

end Table

end AnySpans.Documents
