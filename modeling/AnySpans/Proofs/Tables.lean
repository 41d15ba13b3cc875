import AnySpans.Documents.Table

/-!
# Rows of tables

A table that is built from the empty one by putting values in and leaving rows out has one row for
each document at most (`Table.Distinct`); so its rows are its values.  `Table.map` changes each value
by itself, and it does not matter whether that is done before an operation or after it.
-/

namespace AnySpans.Documents

namespace Table

variable {β : Type} {t : Table β}

/-- No two rows are of the same document. -/
def Distinct (t : Table β) : Prop := t.keys.Pairwise fun j k => (j == k) = false

theorem map_putRow (k : Key) (b : β) (rs : List (Key × β)) : (putRow k b rs).map (·.1) =
    if rs.any (·.1 == k) then rs.map (·.1) else rs.map (·.1) ++ [k] := by
  induction rs with
  | nil => rfl
  | cons r rs ih =>
    rw [putRow]
    cases hr : r.1 == k with
    | true => simp [hr]
    | false =>
      simp only [List.map_cons, ih, List.any_cons, hr, Bool.false_or, Bool.false_eq_true, if_false]
      split <;> simp

theorem distinct_empty : (∅ : Table β).Distinct := .nil

theorem Distinct.put (h : t.Distinct) (k : Key) (b : β) : (t.put k b).Distinct := by
  show ((putRow k b t.rows).map (·.1)).Pairwise _
  rw [map_putRow]
  split
  · exact h
  · rename_i hany
    refine List.pairwise_append.2 ⟨h, List.pairwise_singleton _ _, fun j hj k' hk' => ?_⟩
    obtain ⟨r, hr, rfl⟩ := List.mem_map.1 hj
    rw [List.mem_singleton.1 hk']
    exact Bool.eq_false_iff.2 fun heq => hany (List.any_eq_true.2 ⟨r, hr, heq⟩)

theorem Distinct.filter (h : t.Distinct) (p : Key × β → Bool) :
    (⟨t.rows.filter p⟩ : Table β).Distinct := h.sublist (List.filter_sublist.map _)

theorem Distinct.get?_of_mem (h : t.Distinct) {r : Key × β} (hr : r ∈ t.rows) :
    t.get? r.1 = some r.2 := by
  obtain ⟨rows⟩ := t
  induction rows with
  | nil => cases hr
  | cons r' rs ih =>
    obtain ⟨hne, hrest⟩ := List.pairwise_cons.1 h
    obtain rfl | hr := List.mem_cons.1 hr
    · simp [get?]
    · have : (r'.1 == r.1) = false := hne r.1 (List.mem_map_of_mem hr)
      have ih := ih hrest hr
      rw [get?] at ih ⊢
      rwa [List.find?_cons_of_neg (by rw [this]; decide)]

theorem exists_mem_of_get? {k : Key} {b : β} (h : t.get? k = some b) :
    ∃ r ∈ t.rows, (r.1 == k) = true ∧ r.2 = b := by
  obtain ⟨r, hr, rfl⟩ := Option.map_eq_some_iff.1 h
  exact ⟨r, List.mem_of_find?_eq_some hr, by simpa using List.find?_some hr, rfl⟩

/-- Rows that are left out take their values away and nothing else. -/
theorem Distinct.get?_filter (h : t.Distinct) {p : Key × β → Bool} {k : Key} {b : β}
    (hb : (⟨t.rows.filter p⟩ : Table β).get? k = some b) : t.get? k = some b := by
  obtain ⟨r, hr, hk, rfl⟩ := exists_mem_of_get? hb
  rw [← t.get?_congr hk]
  exact h.get?_of_mem (List.mem_filter.1 hr).1

/-! ### Tables of other values -/

section

variable {γ : Type} (f : β → γ)

/-- The table with another value in the place of each. -/
def map (t : Table β) : Table γ := ⟨t.rows.map fun r => (r.1, f r.2)⟩

theorem get?_map (t : Table β) (k : Key) : (t.map f).get? k = (t.get? k).map f := by
  simp only [get?, map, List.find?_map, Option.map_map, Function.comp_def]

theorem keys_map (t : Table β) : (t.map f).keys = t.keys := by
  simp only [keys, map, List.map_map, Function.comp_def]

theorem putRow_map (k : Key) (b : β) (rs : List (Key × β)) :
    putRow k (f b) (rs.map fun r => (r.1, f r.2)) = (putRow k b rs).map fun r => (r.1, f r.2) := by
  induction rs with
  | nil => rfl
  | cons r rs ih =>
    rw [List.map_cons, putRow, putRow, ih]
    split <;> rfl

theorem put_map (t : Table β) (k : Key) (b : β) : (t.map f).put k (f b) = (t.put k b).map f :=
  congrArg Table.mk (putRow_map f k b t.rows)

theorem erase_map (t : Table β) (k : Key) : (t.map f).erase k = (t.erase k).map f :=
  congrArg Table.mk List.filter_map

theorem modify_map {g : β → β} {g' : γ → γ} (h : ∀ b, g' (f b) = f (g b)) (t : Table β) (k : Key) :
    (t.map f).modify k g' = (t.modify k g).map f := by
  rw [modify, modify, get?_map]
  cases t.get? k with
  | none => rfl
  | some b => exact (congrArg _ (h b)).trans (put_map f t k (g b))

/-- A value may be replaced by one that cannot be told from it. -/
theorem map_put_of_get? {k : Key} {b b' : β} (h : t.get? k = some b) (hb : f b' = f b) :
    (t.put k b').map f = t.map f := by
  obtain ⟨rows⟩ := t
  rw [← put_map, map, put]
  congr 1
  induction rows with
  | nil => cases h
  | cons r rs ih =>
    rw [get?, List.find?_cons] at h
    rw [List.map_cons, putRow]
    split at h
    · rename_i hk
      cases h
      rw [if_pos hk, hb]
    · rename_i hk
      rw [if_neg (Bool.eq_false_iff.1 hk), ih h]

end

end Table

end AnySpans.Documents
