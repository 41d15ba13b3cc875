import AnySpans.Lines.IntervalSet
import Mathlib.Data.List.Sort

/-!
# The lines of interval sets

Every operation on lists of intervals is described by the lines it covers: `union` covers the lines
of the list and of the new interval (`covers_union_iff`), `difference` those lines of the interval
that no member of the list covers (`covers_difference_iff`).  Both hold for arbitrary lists.  For
sets this gives `IntervalSet.mem_add_iff`, `IntervalSet.mem_uncovered_iff` and
`IntervalSet.intersects_iff`, where only lines below `limit` count.
-/

namespace AnySpans.Lines

/-! ### Single intervals -/

theorem Interval.intersects_iff (i j : Interval) :
    i.intersects j = true ↔ ∃ line, line ∈ i ∧ line ∈ j := by
  simp only [intersects, isEmpty, Bool.and_eq_true, Bool.not_eq_true', decide_eq_false_iff_not,
    decide_eq_true_eq, mem_iff]
  constructor
  · rintro ⟨⟨⟨hi, hj⟩, hij⟩, hji⟩
    exact ⟨max i.start j.start, by omega, by omega⟩
  · rintro ⟨line, hi, hj⟩
    omega

/-! ### Coverage -/

@[simp] theorem covers_nil (line : Nat) : ¬ Covers [] line := by
  rintro ⟨i, hi, -⟩
  cases hi

@[simp] theorem covers_cons (i : Interval) (is : List Interval) (line : Nat) :
    Covers (i :: is) line ↔ line ∈ i ∨ Covers is line := by
  simp [Covers]

theorem covers_append (is js : List Interval) (line : Nat) :
    Covers (is ++ js) line ↔ Covers is line ∨ Covers js line := by
  simp only [Covers, List.mem_append, or_and_right, exists_or]

theorem covers_congr {is js : List Interval} (h : ∀ i, i ∈ is ↔ i ∈ js) (line : Nat) :
    Covers is line ↔ Covers js line :=
  exists_congr fun i => and_congr_left fun _ => h i

/-- Members that hold no line can be left out. -/
theorem covers_filter_nonempty (is : List Interval) (line : Nat) :
    Covers (is.filter fun i => !i.isEmpty) line ↔ Covers is line := by
  constructor
  · rintro ⟨i, hi, hline⟩
    exact ⟨i, (List.mem_filter.1 hi).1, hline⟩
  · rintro ⟨i, hi, hline⟩
    refine ⟨i, List.mem_filter.2 ⟨hi, ?_⟩, hline⟩
    cases he : i.isEmpty with
    | false => rfl
    | true => exact absurd hline (i.isEmpty_iff.1 he line)

/-- Only members that share a line with `i` can cover one of its lines. -/
theorem covers_filter_intersects (i : Interval) (is : List Interval) {line : Nat} (h : line ∈ i) :
    Covers (is.filter i.intersects) line ↔ Covers is line := by
  constructor
  · rintro ⟨j, hj, hline⟩
    exact ⟨j, (List.mem_filter.1 hj).1, hline⟩
  · rintro ⟨j, hj, hline⟩
    exact ⟨j, List.mem_filter.2 ⟨hj, (i.intersects_iff j).2 ⟨line, h, hline⟩⟩, hline⟩

/-! ### Sorting -/

/-- Members ascend by their starts. -/
def Ascending (is : List Interval) : Prop := is.Pairwise fun i j => i.start ≤ j.start

theorem mem_sortByStart (is : List Interval) (i : Interval) : i ∈ sortByStart is ↔ i ∈ is :=
  List.mem_mergeSort

theorem ascending_sortByStart (is : List Interval) : Ascending (sortByStart is) := by
  have h : (sortByStart is).Pairwise fun i j => decide (i.start ≤ j.start) = true :=
    List.pairwise_mergeSort (fun a b c hab hbc => by simp only [decide_eq_true_eq] at *; omega)
      (fun a b => by simp only [Bool.or_eq_true, decide_eq_true_eq]; omega) is
  simpa only [Ascending, decide_eq_true_eq] using h

/-! ### Union -/

theorem covers_mergeFrom_iff {current : Interval} {is : List Interval} (hs : Ascending is)
    (hc : ∀ i ∈ is, current.start ≤ i.start) (line : Nat) :
    Covers (mergeFrom current is) line ↔ line ∈ current ∨ Covers is line := by
  induction is generalizing current with
  | nil => simp [mergeFrom]
  | cons i is ih =>
    have hi : current.start ≤ i.start := hc i List.mem_cons_self
    obtain ⟨hfirst, hrest⟩ := List.pairwise_cons.1 hs
    rw [mergeFrom]
    split
    · rename_i htouch
      have hc' : ∀ j ∈ is, (Interval.mk current.start (max current.stop i.stop)).start ≤ j.start :=
        fun j hj => hc j (List.mem_cons_of_mem i hj)
      rw [ih hrest hc', covers_cons, ← or_assoc]
      refine or_congr_left ?_
      simp only [Interval.mem_iff]
      omega
    · rw [covers_cons, ih hrest hfirst, covers_cons]

theorem covers_mergeSorted_iff {is : List Interval} (hs : Ascending is) (line : Nat) :
    Covers (mergeSorted is) line ↔ Covers is line := by
  cases is with
  | nil => rfl
  | cons i is =>
    obtain ⟨hfirst, hrest⟩ := List.pairwise_cons.1 hs
    rw [mergeSorted, covers_mergeFrom_iff hrest hfirst, covers_cons]

/-- A union covers the lines of the list and those of the new interval. -/
theorem covers_union_iff (is : List Interval) (new : Interval) (line : Nat) :
    Covers (union is new) line ↔ Covers is line ∨ line ∈ new := by
  rw [union, covers_mergeSorted_iff (ascending_sortByStart _),
    covers_congr (mem_sortByStart _), covers_filter_nonempty, covers_append, covers_cons]
  simp

/-! ### Difference -/

theorem covers_gaps_iff {stop : Nat} (cursor : Nat) {is : List Interval} (hs : Ascending is)
    (hstop : ∀ i ∈ is, i.start ≤ stop) (line : Nat) :
    Covers (gaps stop cursor is) line ↔ (cursor ≤ line ∧ line < stop) ∧ ¬ Covers is line := by
  induction is generalizing cursor with
  | nil =>
    rw [gaps]
    split
    · simp [Interval.mem_iff]
    · have : ¬ (cursor ≤ line ∧ line < stop) := by omega
      simp [this]
  | cons i is ih =>
    obtain ⟨hfirst, hrest⟩ := List.pairwise_cons.1 hs
    have hi := hstop i List.mem_cons_self
    have ih := ih (max cursor i.stop) hrest fun j hj => hstop j (List.mem_cons_of_mem i hj)
    -- a member after `i` cannot cover a line before `i`
    have hbefore : line < i.start → ¬ Covers is line := by
      rintro hlt ⟨j, hj, hline⟩
      have := hfirst j hj
      have := (j.mem_iff.1 hline).1
      omega
    have hgoOn : Covers (if stop ≤ max cursor i.stop then [] else gaps stop (max cursor i.stop) is)
        line ↔ (max cursor i.stop ≤ line ∧ line < stop) ∧ ¬ Covers is line := by
      split
      · have : ¬ (max cursor i.stop ≤ line ∧ line < stop) := by omega
        simp only [covers_nil, this, false_and]
      · exact ih
    rw [covers_cons, Interval.mem_iff, gaps]
    by_cases hcov : Covers is line
    · have hle : ¬ line < i.start := fun h => hbefore h hcov
      split <;> simp only [covers_cons, Interval.mem_iff, hgoOn, hcov, hle, not_true, or_true,
        and_false, or_false]
    · split <;> simp only [covers_cons, Interval.mem_iff, hgoOn, hcov, not_false_iff, or_false,
        and_true] <;> omega

theorem start_le_of_mem_filter_intersects {i j : Interval} {is : List Interval}
    (h : j ∈ is.filter i.intersects) : j.start ≤ i.stop := by
  obtain ⟨l, hl, hl'⟩ := (i.intersects_iff j).1 (List.mem_filter.1 h).2
  have := (i.mem_iff.1 hl).2
  have := (j.mem_iff.1 hl').1
  omega

/-- A difference covers the lines of the interval that no member of the list covers. -/
theorem covers_difference_iff (i : Interval) (covering : List Interval) (line : Nat) :
    Covers (difference i covering) line ↔ line ∈ i ∧ ¬ Covers covering line := by
  have hstop : ∀ j ∈ sortByStart (covering.filter i.intersects), j.start ≤ i.stop := fun j hj =>
    start_le_of_mem_filter_intersects ((mem_sortByStart _ j).1 hj)
  rw [difference, covers_gaps_iff _ (ascending_sortByStart _) hstop,
    covers_congr (mem_sortByStart _)]
  refine and_congr_right fun hline => not_congr ?_
  exact covers_filter_intersects i covering hline

/-! ### Sets -/

namespace IntervalSet

variable (s : IntervalSet)

@[simp] theorem not_mem_empty (line : Nat) : line ∉ (∅ : IntervalSet) := covers_nil line

theorem mem_add_iff (r : LineRange) (line : Nat) :
    line ∈ s.add r ↔ line ∈ s ∨ line ∈ r ∧ line < limit := by
  rw [← r.mem_toInterval]
  exact covers_union_iff s.intervals r.toInterval line

theorem mem_ofRange_iff (r : LineRange) (line : Nat) :
    line ∈ ofRange r ↔ line ∈ r ∧ line < limit := by
  show line ∈ (∅ : IntervalSet).add r ↔ _
  simp [mem_add_iff]

theorem mem_uncovered_iff (r : LineRange) (line : Nat) :
    line ∈ s.uncovered r ↔ (line ∈ r ∧ line < limit) ∧ line ∉ s := by
  rw [← r.mem_toInterval]
  exact covers_difference_iff r.toInterval s.intervals line

theorem not_mem_of_isEmpty (h : s.isEmpty = true) (line : Nat) : line ∉ s := by
  rintro ⟨i, hi, -⟩
  rw [List.isEmpty_iff.1 h] at hi
  cases hi

theorem intersects_iff (r : LineRange) :
    s.intersects r = true ↔ ∃ line ∈ s, line ∈ r ∧ line < limit := by
  simp only [intersects, List.any_eq_true, Interval.intersects_iff, LineRange.mem_toInterval]
  constructor
  · rintro ⟨i, hi, line, hline, hr⟩
    exact ⟨line, ⟨i, hi, hline⟩, hr⟩
  · rintro ⟨line, ⟨i, hi, hline⟩, hr⟩
    exact ⟨i, hi, line, hline, hr⟩

end IntervalSet

end AnySpans.Lines
