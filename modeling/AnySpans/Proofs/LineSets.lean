import AnySpans.Proofs.Canonical

/-!
# Sets of lines

However a set is put together, the check of its list never fails, it holds the lines of the ranges
that went into it, and it is equal to every other set of the same lines (`Build.canonical_build`).
What can be asked of a set is a question about its lines (`IntervalSet.queries_agree`).
-/

namespace AnySpans.Lines

/-! ### The check -/

theorem all_zip_tail_iff {is : List Interval} (hne : ∀ i ∈ is, i.start < i.stop) :
    ((is.zip is.tail).all fun p => p.1.stop < p.2.start) = true ↔
      is.Pairwise fun i j => i.stop < j.start := by
  induction is with
  | nil => simp
  | cons i is ih =>
    have ih := ih fun j hj => hne j (List.mem_cons_of_mem i hj)
    cases is with
    | nil => simp
    | cons j is =>
      rw [List.tail_cons] at ih
      rw [List.tail_cons, List.zip_cons_cons, List.all_cons, Bool.and_eq_true, ih,
        decide_eq_true_eq, List.pairwise_cons (l := j :: is)]
      refine and_congr_left fun hrest => ?_
      constructor
      · intro (hij : i.stop < j.start) k hk
        obtain rfl | hk := List.mem_cons.1 hk
        · exact hij
        · have := (List.pairwise_cons.1 hrest).1 k hk
          have := hne j (by simp)
          omega
      · intro h
        exact h j List.mem_cons_self

namespace IntervalSet

variable {s t : IntervalSet} {r : LineRange} {line : Nat}

/-- The list of a set is separated. -/
def Canonical (s : IntervalSet) : Prop := Separated s.intervals

theorem isCanonical_iff : s.isCanonical = true ↔ s.Canonical := by
  have hne : s.intervals.all (fun i => !i.isEmpty) = true ↔ ∀ i ∈ s.intervals, i.start < i.stop := by
    simp only [List.all_eq_true, Bool.not_eq_true', Interval.isEmpty_eq_false_iff]
  rw [isCanonical, Bool.and_eq_true, hne]
  constructor
  · rintro ⟨h, hap⟩
    exact ⟨h, (all_zip_tail_iff h).1 hap⟩
  · rintro ⟨h, hap⟩
    exact ⟨h, (all_zip_tail_iff h).2 hap⟩

theorem Canonical.checked?_eq (h : s.Canonical) : s.checked? = some s :=
  if_pos (isCanonical_iff.2 h)

theorem Canonical.ext (hs : s.Canonical) (ht : t.Canonical) (h : ∀ line, line ∈ s ↔ line ∈ t) :
    s = t := congrArg IntervalSet.mk (Separated.ext hs ht h)

theorem Canonical.isEmpty_iff (h : s.Canonical) : s.isEmpty = true ↔ ∀ line, line ∉ s :=
  List.isEmpty_iff.trans (Separated.eq_nil_iff h)

/-! ### Operations -/

theorem canonical_empty : (∅ : IntervalSet).Canonical := separated_nil

theorem canonical_add (s : IntervalSet) (r : LineRange) : (s.add r).Canonical :=
  separated_union _ _

theorem canonical_uncovered (s : IntervalSet) (r : LineRange) : (s.uncovered r).Canonical :=
  separated_difference _ _

theorem Canonical.addSet (h : s.Canonical) (t : IntervalSet) : (s.addSet t).Canonical := by
  have hall : ∀ (js is : List Interval), Separated is → Separated (js.foldl union is) := by
    intro js
    induction js with
    | nil => exact fun _ h => h
    | cons j js ih => exact fun is _ => ih _ (separated_union is j)
  exact hall t.intervals s.intervals h

theorem mem_addSet_iff : line ∈ s.addSet t ↔ line ∈ s ∨ line ∈ t := by
  have hall : ∀ (js is : List Interval),
      Covers (js.foldl union is) line ↔ Covers is line ∨ Covers js line := by
    intro js
    induction js with
    | nil => exact fun is => (or_iff_left (covers_nil line)).symm
    | cons j js ih =>
      intro is
      rw [List.foldl_cons, ih, covers_union_iff, covers_cons, or_assoc]
  exact hall t.intervals s.intervals

theorem mem_extend_iff (rs : List LineRange) :
    line ∈ s.extend rs ↔ line ∈ s ∨ line < limit ∧ ∃ r ∈ rs, line ∈ r := by
  induction rs generalizing s with
  | nil => simp [extend]
  | cons r rs ih =>
    show line ∈ (s.add r).extend rs ↔ _
    rw [ih, mem_add_iff, or_assoc, List.exists_mem_cons_iff]
    tauto

theorem extend?_eq (s : IntervalSet) (rs : List LineRange) : s.extend? rs = some (s.extend rs) := by
  induction rs generalizing s with
  | nil => rfl
  | cons r rs ih =>
    show (s.add? r).bind (fun s => s.extend? rs) = some ((s.add r).extend rs)
    rw [add?, (s.canonical_add r).checked?_eq, Option.bind_some, ih]

theorem includes_iff (h : s.Canonical) : s.includes line = true ↔ line ∈ s :=
  Separated.head?_dropWhile_iff h

/-- A search for the first member that ends after a line leads to the place at which the members are
divided so. -/
theorem includes_eq {n : Nat} (h : PartitionedAt s.intervals line n) :
    s.includes line = (s.intervals[n]?).any fun i => i.start ≤ line := by
  rw [includes, h.dropWhile_eq, List.head?_drop]

theorem contains_iff (h : s.Canonical) (hr : r.start < limit) :
    s.contains r = true ↔ ∀ line ∈ r, line < limit → line ∈ s := by
  have hne : r.toInterval.start < r.toInterval.stop := by
    have := r.ordered
    simp only [LineRange.toInterval]
    omega
  rw [contains, List.any_eq_true, Separated.exists_contains_iff h hne]
  refine forall_congr' fun line => ?_
  rw [LineRange.mem_toInterval, and_imp]
  rfl

/-- The sets that can be made. -/
inductive Reachable : IntervalSet → Prop
  | empty : Reachable ∅
  | add {s : IntervalSet} : Reachable s → ∀ r, Reachable (s.add r)
  | addSet {s t : IntervalSet} : Reachable s → Reachable t → Reachable (s.addSet t)
  | uncovered {s : IntervalSet} : Reachable s → ∀ r, Reachable (s.uncovered r)

namespace Reachable

theorem canonical (h : Reachable s) : s.Canonical := by
  induction h with
  | empty => exact canonical_empty
  | add _ r _ => exact canonical_add _ r
  | addSet _ _ ih _ => exact ih.addSet _
  | uncovered _ r _ => exact canonical_uncovered _ r

theorem extend (h : Reachable s) (rs : List LineRange) : Reachable (s.extend rs) := by
  induction rs generalizing s with
  | nil => exact h
  | cons r rs ih => exact ih (h.add r)

end Reachable

end IntervalSet

/-! ### Sets put together from ranges -/

/-- How a set of lines is put together. -/
inductive Build where
  | empty
  | ofRange (r : LineRange)
  | ofRanges (rs : List LineRange)
  | add (b : Build) (r : LineRange)
  | extend (b : Build) (rs : List LineRange)
  | addSet (b other : Build)

namespace Build

/-- The set that is put together. -/
def set : Build → IntervalSet
  | empty => ∅
  | ofRange r => .ofRange r
  | ofRanges rs => .ofRanges rs
  | add b r => b.set.add r
  | extend b rs => b.set.extend rs
  | addSet b other => b.set.addSet other.set

/-- The set that is put together with a check after each change; none once a check failed. -/
def set? : Build → Option IntervalSet
  | empty => some ∅
  | ofRange r => IntervalSet.ofRanges? [r]
  | ofRanges rs => IntervalSet.ofRanges? rs
  | add b r => b.set?.bind fun s => s.add? r
  | extend b rs => b.set?.bind fun s => s.extend? rs
  | addSet b other => b.set?.bind fun s => other.set?.bind fun t => s.addSet? t

/-- The ranges that went into a set. -/
def added : Build → List LineRange
  | empty => []
  | ofRange r => [r]
  | ofRanges rs => rs
  | add b r => b.added ++ [r]
  | extend b rs => b.added ++ rs
  | addSet b other => b.added ++ other.added

theorem reachable (b : Build) : b.set.Reachable := by
  induction b with
  | empty => exact .empty
  | ofRange r => exact IntervalSet.Reachable.empty.extend [r]
  | ofRanges rs => exact IntervalSet.Reachable.empty.extend rs
  | add b r ih => exact ih.add r
  | extend b rs ih => exact ih.extend rs
  | addSet b other ih ih' => exact ih.addSet ih'

theorem canonical_set (b : Build) : b.set.Canonical := b.reachable.canonical

theorem set?_eq (b : Build) : b.set? = some b.set := by
  induction b with
  | empty => rfl
  | ofRange r => exact IntervalSet.extend?_eq ∅ [r]
  | ofRanges rs => exact IntervalSet.extend?_eq ∅ rs
  | add b r ih =>
    rw [set?, ih, Option.bind_some, IntervalSet.add?, (b.set.canonical_add r).checked?_eq, set]
  | extend b rs ih => rw [set?, ih, Option.bind_some, IntervalSet.extend?_eq, set]
  | addSet b other ih ih' =>
    rw [set?, ih, ih', Option.bind_some, Option.bind_some, IntervalSet.addSet?,
      (b.canonical_set.addSet other.set).checked?_eq, set]

theorem mem_set_iff (b : Build) (line : Nat) :
    line ∈ b.set ↔ line < limit ∧ ∃ r ∈ b.added, line ∈ r := by
  have hofRanges : ∀ rs, line ∈ IntervalSet.ofRanges rs ↔ line < limit ∧ ∃ r ∈ rs, line ∈ r := by
    intro rs
    rw [IntervalSet.ofRanges, IntervalSet.mem_extend_iff]
    exact or_iff_right (IntervalSet.not_mem_empty line)
  have happend : ∀ rs rs' : List LineRange, (line < limit ∧ ∃ r ∈ rs ++ rs', line ∈ r) ↔
      (line < limit ∧ ∃ r ∈ rs, line ∈ r) ∨ line < limit ∧ ∃ r ∈ rs', line ∈ r := by
    intro rs rs'
    simp only [List.mem_append, or_and_right, exists_or, and_or_left]
  induction b with
  | empty => simp [set, added]
  | ofRange r => exact hofRanges [r]
  | ofRanges rs => exact hofRanges rs
  | add b r ih =>
    rw [set, added, happend, IntervalSet.mem_add_iff]
    exact or_congr ih (by simp [and_comm])
  | extend b rs ih =>
    rw [set, added, happend, IntervalSet.mem_extend_iff]
    exact or_congr_left ih
  | addSet b other ih ih' =>
    rw [set, added, happend, IntervalSet.mem_addSet_iff]
    exact or_congr ih ih'

/-- However a set is put together, no check fails, its list is separated and within the numbers of
lines, and it holds the lines below the largest number that are in one of the ranges.  Sets are equal
exactly if they have the same lines; the order in which ranges went into them, how often and how
grouped, makes no difference. -/
theorem canonical_build (b : Build) :
    b.set? = some b.set ∧
      (∀ i ∈ b.set.intervals, i.start < i.stop ∧ i.stop ≤ limit) ∧
      b.set.intervals.Pairwise (fun i j => i.stop < j.start) ∧
      (∀ line, line ∈ b.set ↔ line < limit ∧ ∃ r ∈ b.added, line ∈ r) ∧
      (∀ c : Build, b.set = c.set ↔ ∀ line, line ∈ b.set ↔ line ∈ c.set) ∧
      ∀ c : Build, (∀ r, r ∈ b.added ↔ r ∈ c.added) → b.set = c.set := by
  have hcanonical := b.canonical_set
  have hext : ∀ c : Build, b.set = c.set ↔ ∀ line, line ∈ b.set ↔ line ∈ c.set := fun c =>
    ⟨fun h _ => h ▸ Iff.rfl, hcanonical.ext c.canonical_set⟩
  refine ⟨b.set?_eq, fun i hi => ?_, hcanonical.apart, b.mem_set_iff, hext, fun c hadded => ?_⟩
  · have hne := hcanonical.nonempty i hi
    -- the last line of a member is in the set, hence below the limit
    have hlast : i.stop - 1 ∈ b.set := ⟨i, hi, by omega, by omega⟩
    have := ((b.mem_set_iff _).1 hlast).1
    omega
  · refine (hext c).2 fun line => ?_
    simp only [mem_set_iff, hadded]

/-- Ranges that touch end up in one member, and the largest line in none. -/
example : (Build.addSet (.extend (.ofRange ⟨5, 7, by decide⟩) [⟨1, 3, by decide⟩])
    (.ofRanges [⟨4, 4, by decide⟩, ⟨limit, limit, by decide⟩])).set = ⟨[⟨1, 8⟩]⟩ := by
  cbv

end Build

/-! ### Questions about a set -/

namespace IntervalSet

/-- What can be asked of a set is a question about its lines, where those from `limit` on do not
count: whether it includes a line, which is told from the one place at which its members are divided
into those that end by the line and those that do not; whether it shares a line with a range; and
whether it has all lines of a range, which then lie in one member and leave none uncovered.  The lines
of a range that it has not are again a set, and with them it has all lines of the range. -/
theorem queries_agree {s : IntervalSet} (hs : Reachable s) {r : LineRange} (hr : r.start < limit) :
    (∀ line, (s.includes line = true ↔ line ∈ s) ∧ (∃ n, PartitionedAt s.intervals line n) ∧
        ∀ n, PartitionedAt s.intervals line n →
          s.includes line = (s.intervals[n]?).any fun i => i.start ≤ line) ∧
      (s.intersects r = true ↔ ∃ line ∈ s, line ∈ r ∧ line < limit) ∧
      (s.contains r = true ↔ ∀ line ∈ r, line < limit → line ∈ s) ∧
      (s.contains r = true ↔ (s.uncovered r).isEmpty = true) ∧
      s.uncovered? r = some (s.uncovered r) ∧ (s.uncovered r).Canonical ∧
      (∀ line, line ∈ s.uncovered r ↔ (line ∈ r ∧ line < limit) ∧ line ∉ s) ∧
      s.addSet? (s.uncovered r) = some (s.addSet (s.uncovered r)) ∧
      (s.addSet (s.uncovered r)).contains r = true ∧
      ∀ line, line ∈ s.addSet (s.uncovered r) ↔ line ∈ s ∨ line ∈ r ∧ line < limit := by
  have hc := hs.canonical
  have hu := s.canonical_uncovered r
  have ht := hc.addSet (s.uncovered r)
  have hlines : ∀ line, line ∈ s.addSet (s.uncovered r) ↔ line ∈ s ∨ line ∈ r ∧ line < limit := by
    intro line
    rw [mem_addSet_iff, mem_uncovered_iff]
    tauto
  refine ⟨fun line => ⟨includes_iff hc, hc.exists_partitionedAt line, fun n => includes_eq⟩,
    s.intersects_iff r, contains_iff hc hr, ?_, hu.checked?_eq, hu, s.mem_uncovered_iff r,
    ht.checked?_eq, (contains_iff ht hr).2 fun line hl hlt => (hlines line).2 (.inr ⟨hl, hlt⟩),
    hlines⟩
  rw [contains_iff hc hr, hu.isEmpty_iff]
  refine forall_congr' fun line => ?_
  rw [mem_uncovered_iff]
  tauto

/-- A set with a gap does not contain a range over the gap; what it lacks is the gap and what comes
behind its last member. -/
theorem queries_agree_over_gap :
    let s := (Build.ofRanges [⟨1, 3, by decide⟩, ⟨5, 7, by decide⟩]).set
    let r : LineRange := ⟨2, 9, by decide⟩
    r.start < limit ∧ s.intersects r = true ∧ s.contains r = false ∧ 4 ∈ s.uncovered r ∧
      7 ∉ s.uncovered r ∧ (s.addSet (s.uncovered r)).contains r = true := by
  intro s r
  have hr : r.start < limit := by decide
  obtain ⟨-, hintersects, hcontains, -, -, -, huncovered, -, hfull, -⟩ :=
    queries_agree (Build.ofRanges [⟨1, 3, by decide⟩, ⟨5, 7, by decide⟩]).reachable hr
  have hmem := (Build.ofRanges [⟨1, 3, by decide⟩, ⟨5, 7, by decide⟩]).mem_set_iff
  have h2 : 2 ∈ s := (hmem 2).2 (by simp [Build.added, LineRange.mem_iff, limit])
  have h4 : 4 ∉ s := fun h => absurd ((hmem 4).1 h) (by simp [Build.added, LineRange.mem_iff])
  have h7 : 7 ∈ s := (hmem 7).2 (by simp [Build.added, LineRange.mem_iff, limit])
  refine ⟨hr, hintersects.2 ⟨2, h2, by decide⟩, ?_, (huncovered 4).2 ⟨by decide, h4⟩,
    fun h => ((huncovered 7).1 h).2 h7, hfull⟩
  exact Bool.eq_false_iff.2 fun h => h4 (hcontains.1 h 4 (by decide) (by decide))

end IntervalSet

end AnySpans.Lines
