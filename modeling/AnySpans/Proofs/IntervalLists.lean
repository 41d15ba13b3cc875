import AnySpans.Proofs.Canonical

/-!
# Arbitrary lists of intervals

The members of a list of intervals may be in any order, overlap, touch, be repeated or be empty.
`union` and `difference` answer with the only separated list of the lines in question
(`union_eq_iff`, `difference_eq_iff`), so nothing but the lines of a list counts: neither the order of
its members, nor the order in which sorting leaves members with the same start
(`mergeSorted_eq_union`, `gaps_eq_difference`), nor how the lines are divided among the members
(`exact_on_lists`).
-/

namespace AnySpans.Lines

variable {is js sorted : List Interval} {a b : Interval}

/-! ### The only lists of their lines -/

theorem union_eq_iff : union is a = js ↔
    Separated js ∧ ∀ line, Covers js line ↔ Covers is line ∨ line ∈ a := by
  constructor
  · rintro rfl
    exact ⟨separated_union is a, covers_union_iff is a⟩
  · rintro ⟨hjs, hlines⟩
    exact (separated_union is a).ext hjs fun line =>
      (covers_union_iff is a line).trans (hlines line).symm

theorem difference_eq_iff : difference a is = js ↔
    Separated js ∧ ∀ line, Covers js line ↔ line ∈ a ∧ ¬ Covers is line := by
  constructor
  · rintro rfl
    exact ⟨separated_difference a is, covers_difference_iff a is⟩
  · rintro ⟨hjs, hlines⟩
    exact (separated_difference a is).ext hjs fun line =>
      (covers_difference_iff a is line).trans (hlines line).symm

theorem union_congr (h : ∀ line, Covers is line ∨ line ∈ a ↔ Covers js line ∨ line ∈ b) :
    union is a = union js b :=
  union_eq_iff.2 ⟨separated_union js b, fun line => (covers_union_iff js b line).trans (h line).symm⟩

theorem difference_congr (h : ∀ line ∈ a, Covers is line ↔ Covers js line) :
    difference a is = difference a js :=
  difference_eq_iff.2 ⟨separated_difference a js, fun line =>
    (covers_difference_iff a js line).trans (and_congr_right fun hline => not_congr (h line hline).symm)⟩

/-! ### The order of members -/

theorem covers_perm (h : is.Perm js) (line : Nat) : Covers is line ↔ Covers js line :=
  covers_congr (fun _ => h.mem_iff) line

/-- In whichever order sorting leaves members with the same start, merging them gives the union. -/
theorem mergeSorted_eq_union (hperm : sorted.Perm ((is ++ [a]).filter fun i => !i.isEmpty))
    (hs : Ascending sorted) : mergeSorted sorted = union is a := by
  have hne : ∀ i ∈ sorted, i.start < i.stop := fun i hi =>
    start_lt_stop_of_mem_filter (hperm.mem_iff.1 hi)
  refine (union_eq_iff.2 ⟨separated_mergeSorted hs hne, fun line => ?_⟩).symm
  rw [covers_mergeSorted_iff hs, covers_perm hperm, covers_filter_nonempty, covers_append, covers_cons]
  simp

/-- In whichever order sorting leaves members with the same start, the gaps between them are the
difference. -/
theorem gaps_eq_difference (hperm : sorted.Perm (is.filter a.intersects)) (hs : Ascending sorted) :
    gaps a.stop a.start sorted = difference a is := by
  have hne : ∀ i ∈ sorted, i.start < i.stop := fun i hi =>
    start_lt_stop_of_mem_filter_intersects (hperm.mem_iff.1 hi)
  have hstop : ∀ i ∈ sorted, i.start ≤ a.stop := fun i hi =>
    start_le_of_mem_filter_intersects (hperm.mem_iff.1 hi)
  refine (difference_eq_iff.2 ⟨separated_gaps hne, fun line => ?_⟩).symm
  rw [covers_gaps_iff a.start hs hstop, covers_perm hperm]
  exact and_congr_right fun hline => not_congr (covers_filter_intersects a is hline)

/-! ### All lists -/

/-- Whatever the list, its union with an interval is the one separated list of the lines of both, and
the difference of an interval and the list the one separated list of the lines of the interval in no
member.  Neither depends on the order of the members, nor on the order in which sorting leaves those
with the same start.  What an interval lacks changes nothing when it is put into the list before the
interval, and lines may be taken off all at once or after they were merged. -/
theorem exact_on_lists (is : List Interval) (a : Interval) :
    (∀ js, union is a = js ↔
        Separated js ∧ ∀ line, Covers js line ↔ Covers is line ∨ line ∈ a) ∧
      (∀ js, difference a is = js ↔
        Separated js ∧ ∀ line, Covers js line ↔ line ∈ a ∧ ¬ Covers is line) ∧
      (∀ js, js.Perm is → union js a = union is a ∧ difference a js = difference a is) ∧
      (∀ sorted, sorted.Perm ((is ++ [a]).filter fun i => !i.isEmpty) → Ascending sorted →
        mergeSorted sorted = union is a) ∧
      (∀ sorted, sorted.Perm (is.filter a.intersects) → Ascending sorted →
        gaps a.stop a.start sorted = difference a is) ∧
      union is a = union (is ++ difference a is) a ∧
      ∀ b, difference a (union is b) = difference a (b :: is) := by
  refine ⟨fun js => union_eq_iff, fun js => difference_eq_iff, fun js hperm => ⟨?_, ?_⟩,
    fun sorted => mergeSorted_eq_union, fun sorted => gaps_eq_difference, ?_, fun b => ?_⟩
  · exact union_congr fun line => or_congr_left (covers_perm hperm line)
  · exact difference_congr fun line _ => covers_perm hperm line
  · refine union_congr fun line => ?_
    rw [covers_append, covers_difference_iff]
    tauto
  · refine difference_congr fun line _ => ?_
    rw [covers_union_iff, covers_cons, or_comm]

/-- A member that reaches beyond later ones, one that starts with another, and one without lines. -/
example : union [⟨9, 4⟩, ⟨2, 8⟩, ⟨12, 14⟩, ⟨2, 3⟩] ⟨8, 10⟩ = [⟨2, 10⟩, ⟨12, 14⟩] ∧
    difference ⟨0, 13⟩ [⟨9, 4⟩, ⟨2, 8⟩, ⟨12, 14⟩, ⟨2, 3⟩] = [⟨0, 2⟩, ⟨8, 12⟩] := by
  constructor <;> cbv

end AnySpans.Lines
