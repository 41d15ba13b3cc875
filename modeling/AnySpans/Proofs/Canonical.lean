import AnySpans.Proofs.Lines

/-!
# Canonical lists of intervals

A list of intervals is `Separated` if no member is empty and between two neighbours there is a line
in neither.  A set of lines has one such list only (`Separated.ext`), and whatever the lists they are
given, `union` and `difference` answer with one (`separated_union`, `separated_difference`).  In such
a list a run of covered lines lies in one member (`Separated.exists_contains_iff`), and the members
that end by a line come before the others (`Separated.exists_partitionedAt`).
-/

namespace AnySpans.Lines

/-- No member is empty, and each ends before those after it start. -/
structure Separated (is : List Interval) : Prop where
  nonempty : ∀ i ∈ is, i.start < i.stop
  apart : is.Pairwise fun i j => i.stop < j.start

variable {i j : Interval} {is js : List Interval} {line : Nat}

theorem separated_nil : Separated [] := ⟨List.forall_mem_nil _, .nil⟩

theorem separated_cons :
    Separated (i :: is) ↔ i.start < i.stop ∧ (∀ j ∈ is, i.stop < j.start) ∧ Separated is := by
  constructor
  · rintro ⟨hne, hap⟩
    obtain ⟨hfirst, hrest⟩ := List.pairwise_cons.1 hap
    exact ⟨hne i List.mem_cons_self, hfirst, fun j hj => hne j (List.mem_cons_of_mem i hj), hrest⟩
  · rintro ⟨hi, hfirst, hne, hap⟩
    refine ⟨fun j hj => ?_, List.pairwise_cons.2 ⟨hfirst, hap⟩⟩
    obtain rfl | hj := List.mem_cons.1 hj
    · exact hi
    · exact hne j hj

theorem separated_singleton (h : i.start < i.stop) : Separated [i] :=
  separated_cons.2 ⟨h, List.forall_mem_nil _, separated_nil⟩

theorem Interval.start_lt_stop_of_mem (h : line ∈ i) : i.start < i.stop :=
  Nat.lt_of_le_of_lt (i.mem_iff.1 h).1 (i.mem_iff.1 h).2

theorem Interval.isEmpty_eq_false_iff : i.isEmpty = false ↔ i.start < i.stop := by
  rw [isEmpty, decide_eq_false_iff_not, Nat.not_le]

namespace Separated

theorem start_le (h : Separated (i :: is)) (hl : Covers (i :: is) line) : i.start ≤ line := by
  obtain ⟨hi, hfirst, -⟩ := separated_cons.1 h
  obtain hl | ⟨j, hj, hl⟩ := (covers_cons i is line).1 hl
  · exact (i.mem_iff.1 hl).1
  · have := hfirst j hj
    have := (j.mem_iff.1 hl).1
    omega

/-- What the members after the first cover are the lines behind the first. -/
theorem covers_tail_iff (h : Separated (i :: is)) :
    Covers is line ↔ Covers (i :: is) line ∧ i.stop ≤ line := by
  obtain ⟨-, hfirst, -⟩ := separated_cons.1 h
  rw [covers_cons]
  constructor
  · rintro ⟨j, hj, hl⟩
    have := hfirst j hj
    have := (j.mem_iff.1 hl).1
    exact ⟨.inr ⟨j, hj, hl⟩, by omega⟩
  · rintro ⟨hl | hl, hstop⟩
    · exact absurd (i.mem_iff.1 hl).2 (Nat.not_lt.2 hstop)
    · exact hl

/-- The line at which a member ends is in no member. -/
theorem not_covers_stop (h : Separated is) (hi : i ∈ is) : ¬ Covers is i.stop := by
  induction is with
  | nil => cases hi
  | cons k is ih =>
    obtain ⟨hk, hfirst, hrest⟩ := separated_cons.1 h
    rw [covers_cons, not_or, Interval.mem_iff]
    obtain rfl | hi := List.mem_cons.1 hi
    · refine ⟨by omega, ?_⟩
      rintro ⟨j, hj, hl⟩
      have := hfirst j hj
      have := (j.mem_iff.1 hl).1
      omega
    · refine ⟨?_, ih hrest hi⟩
      have := hfirst i hi
      have := hrest.nonempty i hi
      omega

/-- Two separated lists that cover the same lines are the same. -/
theorem ext (his : Separated is) (hjs : Separated js) (h : ∀ line, Covers is line ↔ Covers js line) :
    is = js := by
  induction is generalizing js with
  | nil =>
    cases js with
    | nil => rfl
    | cons j js =>
      have hj := (separated_cons.1 hjs).1
      exact absurd ((h j.start).2 ⟨j, List.mem_cons_self, Nat.le_refl _, hj⟩) (covers_nil _)
  | cons i is ih =>
    have hi := (separated_cons.1 his).1
    have hstart : Covers (i :: is) i.start := ⟨i, List.mem_cons_self, Nat.le_refl _, hi⟩
    cases js with
    | nil => exact absurd ((h i.start).1 hstart) (covers_nil _)
    | cons j js =>
      have hj := (separated_cons.1 hjs).1
      have hstart' : Covers (j :: js) j.start := ⟨j, List.mem_cons_self, Nat.le_refl _, hj⟩
      -- both start with the first line covered and end with the first one after it that is not
      have hle : i.start ≤ j.start := his.start_le ((h j.start).2 hstart')
      have hge : j.start ≤ i.start := hjs.start_le ((h i.start).1 hstart)
      have hstop : ¬ Covers (j :: js) i.stop := fun hl =>
        his.not_covers_stop List.mem_cons_self ((h i.stop).2 hl)
      have hstop' : ¬ Covers (i :: is) j.stop := fun hl =>
        hjs.not_covers_stop List.mem_cons_self ((h j.stop).1 hl)
      have hend : i.stop = j.stop := by
        refine Nat.le_antisymm (Nat.not_lt.1 fun hlt => hstop' ?_) (Nat.not_lt.1 fun hlt => hstop ?_)
        · exact ⟨i, List.mem_cons_self, by omega, hlt⟩
        · exact ⟨j, List.mem_cons_self, by omega, hlt⟩
      obtain rfl : i = j := by
        cases i
        cases j
        obtain rfl := Nat.le_antisymm hle hge
        obtain rfl := hend
        rfl
      rw [ih (separated_cons.1 his).2.2 (separated_cons.1 hjs).2.2 fun line => by
        rw [his.covers_tail_iff, hjs.covers_tail_iff, h line]]

theorem eq_nil_iff (h : Separated is) : is = [] ↔ ∀ line, ¬ Covers is line := by
  refine ⟨fun h => h ▸ covers_nil, fun hno => h.ext separated_nil fun line => ?_⟩
  simp only [hno line, covers_nil]

/-- Lines one after another that are all covered lie in one member. -/
theorem exists_contains_iff (h : Separated is) (hi : i.start < i.stop) :
    (∃ j ∈ is, j.contains i = true) ↔ ∀ line ∈ i, Covers is line := by
  simp only [Interval.contains, Bool.and_eq_true, decide_eq_true_eq]
  constructor
  · rintro ⟨j, hj, hle, hge⟩ line hl
    obtain ⟨h₁, h₂⟩ := i.mem_iff.1 hl
    exact ⟨j, hj, by omega, by omega⟩
  · intro hall
    obtain ⟨j, hj, hl⟩ := hall i.start ⟨Nat.le_refl _, hi⟩
    obtain ⟨h₁, h₂⟩ := j.mem_iff.1 hl
    refine ⟨j, hj, h₁, Nat.not_lt.1 fun hlt => h.not_covers_stop hj (hall j.stop ⟨?_, hlt⟩)⟩
    omega

end Separated

/-! ### Union and difference -/

theorem start_le_of_mem_mergeFrom {current : Interval} (hs : Ascending is)
    (hc : ∀ i ∈ is, current.start ≤ i.start) :
    ∀ j ∈ mergeFrom current is, current.start ≤ j.start := by
  induction is generalizing current with
  | nil =>
    intro j hj
    rw [mergeFrom, List.mem_singleton] at hj
    exact hj ▸ Nat.le_refl _
  | cons i is ih =>
    obtain ⟨hfirst, hrest⟩ := List.pairwise_cons.1 hs
    have hi : current.start ≤ i.start := hc i List.mem_cons_self
    intro j hj
    rw [mergeFrom] at hj
    split at hj
    · have hc' : ∀ k ∈ is, (Interval.mk current.start (max current.stop i.stop)).start ≤ k.start :=
        fun k hk => hc k (List.mem_cons_of_mem i hk)
      exact ih hrest hc' j hj
    · obtain rfl | hj := List.mem_cons.1 hj
      · exact Nat.le_refl _
      · exact Nat.le_trans hi (ih hrest hfirst j hj)

theorem separated_mergeFrom {current : Interval} (hs : Ascending is)
    (hc : ∀ i ∈ is, current.start ≤ i.start) (hcurrent : current.start < current.stop)
    (hne : ∀ i ∈ is, i.start < i.stop) : Separated (mergeFrom current is) := by
  induction is generalizing current with
  | nil => exact separated_singleton hcurrent
  | cons i is ih =>
    obtain ⟨hfirst, hrest⟩ := List.pairwise_cons.1 hs
    have hne' : ∀ j ∈ is, j.start < j.stop := fun j hj => hne j (List.mem_cons_of_mem i hj)
    rw [mergeFrom]
    split
    · refine ih hrest (fun j hj => hc j (List.mem_cons_of_mem i hj)) ?_ hne'
      exact Nat.lt_of_lt_of_le hcurrent (Nat.le_max_left _ _)
    · rename_i hgap
      refine separated_cons.2
        ⟨hcurrent, fun j hj => ?_, ih hrest hfirst (hne i List.mem_cons_self) hne'⟩
      exact Nat.lt_of_lt_of_le (Nat.not_le.1 hgap) (start_le_of_mem_mergeFrom hrest hfirst j hj)

theorem separated_mergeSorted (hs : Ascending is) (hne : ∀ i ∈ is, i.start < i.stop) :
    Separated (mergeSorted is) := by
  cases is with
  | nil => exact separated_nil
  | cons i is =>
    obtain ⟨hfirst, hrest⟩ := List.pairwise_cons.1 hs
    exact separated_mergeFrom hrest hfirst (hne i List.mem_cons_self) fun j hj =>
      hne j (List.mem_cons_of_mem i hj)

theorem start_lt_stop_of_mem_filter (h : i ∈ is.filter fun i => !i.isEmpty) : i.start < i.stop := by
  have h := (List.mem_filter.1 h).2
  rwa [Bool.not_eq_true', Interval.isEmpty_eq_false_iff] at h

theorem separated_union (is : List Interval) (new : Interval) : Separated (union is new) :=
  separated_mergeSorted (ascending_sortByStart _) fun i hi =>
    start_lt_stop_of_mem_filter ((mem_sortByStart _ i).1 hi)

theorem cursor_le_of_mem_gaps {stop cursor : Nat} : ∀ j ∈ gaps stop cursor is, cursor ≤ j.start := by
  induction is generalizing cursor with
  | nil =>
    intro j hj
    rw [gaps] at hj
    split at hj
    · rw [List.mem_singleton] at hj
      exact hj ▸ Nat.le_refl _
    · cases hj
  | cons i is ih =>
    intro j hj
    have hrest : j ∈ (if stop ≤ max cursor i.stop then [] else gaps stop (max cursor i.stop) is) →
        cursor ≤ j.start := by
      intro hj
      split at hj
      · cases hj
      · exact Nat.le_trans (Nat.le_max_left _ _) (ih j hj)
    rw [gaps] at hj
    split at hj
    · obtain rfl | hj := List.mem_cons.1 hj
      · exact Nat.le_refl _
      · exact hrest hj
    · exact hrest hj

/-- What is left out between two gaps is not empty, so gaps do not touch. -/
theorem separated_gaps {stop cursor : Nat} (hne : ∀ i ∈ is, i.start < i.stop) :
    Separated (gaps stop cursor is) := by
  induction is generalizing cursor with
  | nil =>
    rw [gaps]
    split
    · exact separated_singleton ‹_›
    · exact separated_nil
  | cons i is ih =>
    have hi := hne i List.mem_cons_self
    have hrest : Separated
        (if stop ≤ max cursor i.stop then [] else gaps stop (max cursor i.stop) is) := by
      split
      · exact separated_nil
      · exact ih fun j hj => hne j (List.mem_cons_of_mem i hj)
    rw [gaps]
    split
    · refine separated_cons.2 ⟨‹_›, fun j hj => ?_, hrest⟩
      split at hj
      · cases hj
      · exact Nat.lt_of_lt_of_le hi
          (Nat.le_trans (Nat.le_max_right _ _) (cursor_le_of_mem_gaps j hj))
    · exact hrest

theorem start_lt_stop_of_mem_filter_intersects (h : j ∈ is.filter i.intersects) :
    j.start < j.stop := by
  obtain ⟨line, -, hl⟩ := (i.intersects_iff j).1 (List.mem_filter.1 h).2
  exact Interval.start_lt_stop_of_mem hl

theorem separated_difference (i : Interval) (covering : List Interval) :
    Separated (difference i covering) :=
  separated_gaps fun j hj =>
    start_lt_stop_of_mem_filter_intersects ((mem_sortByStart _ j).1 hj)

/-! ### Where a line stands -/

/-- The first `n` members end by a line, and the others do not. -/
def PartitionedAt (is : List Interval) (line n : Nat) : Prop :=
  (∀ i ∈ is.take n, i.stop ≤ line) ∧ ∀ i ∈ is.drop n, line < i.stop

theorem Separated.exists_partitionedAt (h : Separated is) (line : Nat) :
    ∃ n, PartitionedAt is line n := by
  induction is with
  | nil => exact ⟨0, List.forall_mem_nil _, List.forall_mem_nil _⟩
  | cons i is ih =>
    obtain ⟨hi, hfirst, hrest⟩ := separated_cons.1 h
    by_cases hstop : i.stop ≤ line
    · obtain ⟨n, htake, hdrop⟩ := ih hrest
      refine ⟨n + 1, fun j hj => ?_, hdrop⟩
      obtain rfl | hj := List.mem_cons.1 hj
      · exact hstop
      · exact htake j hj
    · refine ⟨0, List.forall_mem_nil _, fun j hj => ?_⟩
      obtain rfl | hj := List.mem_cons.1 hj
      · exact Nat.not_le.1 hstop
      · have := hfirst j hj
        have := hrest.nonempty j hj
        omega

theorem PartitionedAt.dropWhile_eq {n : Nat} (h : PartitionedAt is line n) :
    is.dropWhile (fun i => i.stop ≤ line) = is.drop n := by
  obtain ⟨htake, hdrop⟩ := h
  have hdrop' : (is.drop n).dropWhile (fun i => i.stop ≤ line) = is.drop n := by
    cases hn : is.drop n with
    | nil => rfl
    | cons i is =>
      have := hdrop i (hn ▸ List.mem_cons_self)
      exact List.dropWhile_cons_of_neg (by simpa using this)
  calc is.dropWhile (fun i => i.stop ≤ line)
      = (is.take n ++ is.drop n).dropWhile (fun i => i.stop ≤ line) := by rw [List.take_append_drop]
    _ = (is.drop n).dropWhile (fun i => i.stop ≤ line) :=
        List.dropWhile_append_of_pos fun i hi => decide_eq_true (htake i hi)
    _ = is.drop n := hdrop'

/-- The member before which all end by a line holds the line if it starts by it; no other can. -/
theorem Separated.head?_dropWhile_iff (h : Separated is) :
    ((is.dropWhile fun i => i.stop ≤ line).head?).any (fun i => i.start ≤ line) = true ↔
      Covers is line := by
  induction is with
  | nil => simp
  | cons i is ih =>
    obtain ⟨hi, hfirst, hrest⟩ := separated_cons.1 h
    by_cases hstop : i.stop ≤ line
    · rw [List.dropWhile_cons_of_pos (by simpa using hstop), ih hrest, h.covers_tail_iff]
      exact and_iff_left hstop
    · rw [List.dropWhile_cons_of_neg (by simpa using hstop), covers_cons,
        or_iff_left fun hl => hstop (h.covers_tail_iff.1 hl).2, List.head?_cons, Option.any_some,
        decide_eq_true_eq, Interval.mem_iff]
      omega

end AnySpans.Lines
