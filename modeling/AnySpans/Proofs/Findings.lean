import AnySpans.Proofs.WellFormed
import AnySpans.Report.Finding
import AnySpans.Report.Windows
import Mathlib.Data.List.Dedup
import Mathlib.Data.List.Perm.Basic

/-!
# What is reported

The lines that are looked at are those of the document within the bounds (`requestedLines_cases`), and
windows hold them all and no others, whatever their size (`exists_mem_windows`).  Of ranges that start
at different positions there is one list in the order of starts (`inOrder_unique`).
-/

namespace AnySpans.CommandLine

open AnySpans.Lines AnySpans.Number AnySpans.Text

theorem le_of_countWithin? {most n : Nat} {cs : List Char} (h : countWithin? most cs = some n) :
    n ≤ most := by
  unfold countWithin? at h
  dsimp only at h
  split at h
  all_goals
    split at h
    · rename_i hwithin
      cases h
      exact hwithin.2.2
    · cases h

/-- Bounds that are given by a text are in order, and within the limit. -/
theorem Bounds.of_parse {text : String} {b : Bounds} (h : Bounds.parse text = .ok b) :
    0 < b.first ∧ b.first ≤ b.last ∧ b.last ≤ limit := by
  unfold Bounds.parse at h
  split at h
  · cases h
  · split at h
    · cases h
    · cases h
    · rename_i hlast
      split at h
      · cases h
      · cases h
        have := le_of_countWithin? hlast
        dsimp only
        omega

end AnySpans.CommandLine

namespace AnySpans.Report

open AnySpans.CommandLine AnySpans.Lines AnySpans.Text

/-! ### Lines -/

/-- A line of a document that lies within the bounds, if there are any. -/
def IsWanted (bounds : Option Bounds) (lastLine line : Nat) : Prop :=
  line ≤ lastLine ∧ line < limit ∧ ∀ b ∈ bounds, b.first ≤ line + 1 ∧ line + 1 ≤ b.last

instance (bounds : Option Bounds) (lastLine line : Nat) :
    Decidable (IsWanted bounds lastLine line) := inferInstanceAs (Decidable (_ ∧ _))

section

variable {b : Bounds} {lastLine : Nat}

theorem requestedLines_of_lt (hpos : 0 < b.first) (h : lastLine < b.first - 1) :
    requestedLines (some b) lastLine = .ok none := by
  simp only [requestedLines, pred?_of_pos hpos]
  exact if_neg (Nat.not_le.2 h)

theorem requestedLines_of_le (hpos : 0 < b.first) (hle : b.first ≤ b.last)
    (h : b.first - 1 ≤ lastLine) : requestedLines (some b) lastLine =
      .ok (some ⟨b.first - 1, min (b.last - 1) lastLine, by omega⟩) := by
  have hordered : b.first - 1 ≤ min (b.last - 1) lastLine := by omega
  simp only [requestedLines, pred?_of_pos hpos, pred?_of_pos (Nat.lt_of_lt_of_le hpos hle)]
  show (if b.first - 1 ≤ lastLine then some <$> LineRange.new? _ _ else _) = _
  rw [if_pos h, LineRange.new?, dif_pos hordered]
  rfl

end

/-- Either a document has none of the lines within the bounds, or they are a range of lines. -/
theorem requestedLines_cases {bounds : Option Bounds} {lastLine : Nat}
    (hb : ∀ b ∈ bounds, 0 < b.first ∧ b.first ≤ b.last ∧ b.last ≤ limit) :
    (requestedLines bounds lastLine = .ok none ∧ ∀ line, ¬IsWanted bounds lastLine line) ∨
      ∃ r, requestedLines bounds lastLine = .ok (some r) ∧ r.start < limit ∧
        ∀ line, line < limit ∧ line ∈ r ↔ IsWanted bounds lastLine line := by
  cases bounds with
  | none =>
    refine .inr ⟨_, rfl, (by decide : 0 < limit), fun line => ?_⟩
    simp only [LineRange.mem_iff, IsWanted, Option.not_mem_none, false_implies, implies_true, and_true]
    omega
  | some b =>
    obtain ⟨hpos, hle, hlimit⟩ := hb b rfl
    by_cases hexists : b.first - 1 ≤ lastLine
    · refine .inr ⟨_, requestedLines_of_le hpos hle hexists, ?_, fun line => ?_⟩
      · show b.first - 1 < limit
        omega
      · simp only [LineRange.mem_iff, IsWanted, Option.mem_def, Option.some.injEq, forall_eq']
        omega
    · refine .inl ⟨requestedLines_of_lt hpos (Nat.not_le.1 hexists), fun line hwanted => ?_⟩
      obtain ⟨hline, -, hwithin⟩ := hwanted
      have := hwithin b rfl
      omega

theorem exists_mem_windowsFrom (page start stop : Nat) (h : start ≤ stop) (line : Nat) :
    (∃ v ∈ windowsFrom page start stop h, line ∈ v) ↔ start ≤ line ∧ line ≤ stop := by
  induction start, h using windowsFrom.induct page stop with
  | case1 start h hlt ih =>
    rw [windowsFrom, dif_pos hlt]
    refine (List.exists_mem_cons_iff ..).trans ?_
    rw [ih, LineRange.mem_iff]
    dsimp only
    omega
  | case2 start h hnot =>
    rw [windowsFrom, dif_neg hnot]
    simp only [List.mem_singleton, exists_eq_left, LineRange.mem_iff]

/-- Windows hold the lines that they divide, and no others. -/
theorem exists_mem_windows (range : LineRange) (page : Option Nat) (line : Nat) :
    (∃ v ∈ windows range page, line ∈ v) ↔ line ∈ range := by
  unfold windows
  split
  · simp
  · simp
  · exact exists_mem_windowsFrom _ _ _ _ line

/-! ### Ranges in order -/

/-- Ranges in the order of their starts. -/
def inOrder (ranges : List Range) : List Range := ranges.mergeSort fun a b => a.start ≤ b.start

theorem mem_inOrder {ranges : List Range} {r : Range} : r ∈ inOrder ranges ↔ r ∈ ranges :=
  List.mem_mergeSort

theorem pairwise_inOrder (ranges : List Range) :
    (inOrder ranges).Pairwise fun a b => a.start ≤ b.start := by
  have hsorted := @List.pairwise_mergeSort Range (fun a b => a.start ≤ b.start)
    (fun a b c hab hbc => decide_eq_true
      (Position.le_trans (of_decide_eq_true hab) (of_decide_eq_true hbc)))
    (fun a b => by simp only [Bool.or_eq_true, decide_eq_true_eq, Position.le_iff]; omega) ranges
  exact hsorted.imp of_decide_eq_true

/-- Ranges that start at different positions have one order. -/
theorem inOrder_unique {ranges ranges' : List Range} (hnodup : ranges.Nodup)
    (hnodup' : ranges'.Nodup) (hmem : ∀ r, r ∈ ranges ↔ r ∈ ranges')
    (hstart : ∀ a ∈ ranges, ∀ b ∈ ranges, a.start = b.start → a = b) :
    inOrder ranges = inOrder ranges' := by
  have hperm : (inOrder ranges).Perm (inOrder ranges') :=
    ((List.mergeSort_perm ..).trans ((List.perm_ext_iff_of_nodup hnodup hnodup').2 hmem)).trans
      (List.mergeSort_perm ..).symm
  refine hperm.eq_of_pairwise (fun a b ha hb hab hba => ?_) (pairwise_inOrder _) (pairwise_inOrder _)
  refine hstart a (mem_inOrder.1 ha) b ((hmem b).2 (mem_inOrder.1 hb)) ?_
  exact Position.le_antisymm hab hba

/-- Where no two start at the same position, ranges in order start one after another. -/
theorem strictly_inOrder {ranges : List Range} (hnodup : ranges.Nodup)
    (hstart : ∀ a ∈ ranges, ∀ b ∈ ranges, a.start = b.start → a = b) :
    (inOrder ranges).Pairwise fun a b => a.start < b.start := by
  have hne : (inOrder ranges).Nodup := (List.mergeSort_perm ..).nodup_iff.2 hnodup
  refine ((pairwise_inOrder ranges).and hne).imp_of_mem fun {a b} ha hb hab => ?_
  obtain ⟨hle, hne⟩ := hab
  refine Position.not_le.1 fun hge => hne ?_
  refine hstart a (mem_inOrder.1 ha) b (mem_inOrder.1 hb) ?_
  exact Position.le_antisymm hle hge

/-! ### Findings -/

/-- A finding can be made for a range exactly where each coordinate has a successor. -/
theorem Finding.of_eq (file : String) (text : List Char) (r : Range) :
    Finding.of file text r =
      if (r.start.line < limit ∧ r.start.character < limit) ∧
          r.stop.line < limit ∧ r.stop.character < limit then
        .ok ⟨file, r.start.line + 1, r.start.character + 1, r.stop.line + 1, r.stop.character + 1,
          String.ofList (textOn text r)⟩
      else .error .sum := by
  simp only [Finding.of, succ?]
  by_cases hline : r.start.line < limit
  · by_cases hcolumn : r.start.character < limit
    · by_cases hstop : r.stop.line < limit
      · by_cases hstop' : r.stop.character < limit
        · simp only [hline, hcolumn, hstop, hstop', and_self, if_true]
          rfl
        · simp only [hline, hcolumn, hstop, hstop', and_false, if_true, if_false]
          rfl
      · simp only [hline, hcolumn, hstop, false_and, and_false, if_true, if_false]
        rfl
    · simp only [hline, hcolumn, false_and, and_false, if_true, if_false]
      rfl
  · simp only [hline, false_and, if_false]
    rfl

/-- Ranges whose coordinates are within the limit can be reported. -/
theorem exists_findings (file : String) (text : List Char) {ranges : List Range}
    (h : ∀ r ∈ ranges, (r.start.line < limit ∧ r.start.character < limit) ∧
      r.stop.line < limit ∧ r.stop.character < limit) :
    ∃ fs, ranges.mapM (Finding.of file text) = .ok fs := by
  induction ranges with
  | nil => exact ⟨[], rfl⟩
  | cons r ranges ih =>
    obtain ⟨fs, hfs⟩ := ih fun r' hr' => h r' (List.mem_cons_of_mem _ hr')
    rw [List.mapM_cons, Finding.of_eq, if_pos (h r List.mem_cons_self), hfs]
    exact ⟨_, rfl⟩

end AnySpans.Report
