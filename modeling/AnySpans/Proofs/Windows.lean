import AnySpans.Proofs.Findings
import Mathlib.Data.List.Chain

/-!
# Division into windows

A range of lines is divided turn by turn: each turn gives a window and the line at which the next one
begins (`windowAt`), in arithmetic that has a fault where a number would leave its bounds.  The turns
come to an end without a fault, and give the windows of the range (`divides_iff`); these follow one
another, are of the given length but for the last one, and hold each line of the range once
(`isDivision_windowsFrom`).  So the lines that were asked for can be looked at in windows
(`requested_lines_divided`).
-/

namespace AnySpans.Report

open AnySpans.CommandLine AnySpans.Lines

variable {r : LineRange} {page start : Nat} {ws : List LineRange}

/-! ### Turns -/

/-- The window of at most `page` lines that begins at a line, and the line at which the next one does, if
there is one.  A sum beyond `limit` is cut to `limit`. -/
def windowAt (r : LineRange) (page start : Nat) : Except Fault (LineRange × Option Nat) := do
  let stop := min (min (start + (← pred? page)) limit) r.stop
  let window ← LineRange.new? start stop
  if r.stop ≤ stop then return (window, none)
  return (window, some (← succ? stop))

/-- The turns from a line on come to an end, and give some windows. -/
inductive Divides (r : LineRange) (page : Nat) : Nat → List LineRange → Prop
  | last {start : Nat} {w : LineRange} : windowAt r page start = .ok (w, none) →
    Divides r page start [w]
  | next {start start' : Nat} {w : LineRange} {ws : List LineRange} :
    windowAt r page start = .ok (w, some start') → Divides r page start' ws →
    Divides r page start (w :: ws)

theorem windowAt_of_lt (hlimit : r.stop ≤ limit) (h : start + page < r.stop) :
    windowAt r (page + 1) start =
      .ok (⟨start, start + page, Nat.le_add_right _ _⟩, some (start + page + 1)) := by
  have hpred : pred? (page + 1) = .ok page := pred?_of_pos (Nat.succ_pos page)
  have hstop : min (min (start + page) limit) r.stop = start + page := by omega
  have hwindow : LineRange.new? start (start + page) = .ok ⟨start, start + page, _⟩ :=
    dif_pos (Nat.le_add_right _ _)
  have hnext : succ? (start + page) = .ok (start + page + 1) := succ?_of_lt (by omega)
  simp only [windowAt, hpred, bind, Except.bind, hstop, hwindow, if_neg (Nat.not_le.2 h), hnext]
  rfl

theorem windowAt_of_le (hlimit : r.stop ≤ limit) (hstart : start ≤ r.stop)
    (h : r.stop ≤ start + page) :
    windowAt r (page + 1) start = .ok (⟨start, r.stop, hstart⟩, none) := by
  have hpred : pred? (page + 1) = .ok page := pred?_of_pos (Nat.succ_pos page)
  have hstop : min (min (start + page) limit) r.stop = r.stop := by omega
  have hwindow : LineRange.new? start r.stop = .ok ⟨start, r.stop, hstart⟩ := dif_pos hstart
  simp only [windowAt, hpred, bind, Except.bind, hstop, hwindow, if_pos (Nat.le_refl r.stop)]
  rfl

/-- In a range within the limit all turns can be made, they come to an end, and give its windows. -/
theorem divides_iff (hlimit : r.stop ≤ limit) (hstart : start ≤ r.stop) :
    Divides r (page + 1) start ws ↔ ws = windowsFrom page start r.stop hstart := by
  induction start, hstart using windowsFrom.induct page r.stop generalizing ws with
  | case1 start hstart hlt ih =>
    have hturn := windowAt_of_lt hlimit hlt
    rw [windowsFrom, dif_pos hlt]
    constructor
    · intro h
      cases h with
      | last h => rw [hturn] at h; cases h
      | next h hrest =>
        rw [hturn] at h
        cases h
        rw [ih.1 hrest]
    · rintro rfl
      exact .next hturn (ih.2 rfl)
  | case2 start hstart hnot =>
    have hturn := windowAt_of_le hlimit hstart (Nat.not_lt.1 hnot)
    rw [windowsFrom, dif_neg hnot]
    constructor
    · intro h
      cases h with
      | last h => rw [hturn] at h; cases h; rfl
      | next h => rw [hturn] at h; cases h
    · rintro rfl
      exact .last hturn

/-! ### Windows -/

/-- Windows follow one another, are of `page` lines but for the last one, which has no more, and hold
each line of a range once and no other line. -/
structure IsDivision (page : Nat) (r : LineRange) (ws : List LineRange) : Prop where
  nonempty : ws ≠ []
  consecutive : ws.IsChain fun v w => w.start = v.stop + 1
  full : ∀ v ∈ ws.dropLast, v.stop + 1 = v.start + page
  short : ∀ v ∈ ws, v.stop + 1 ≤ v.start + page
  once : ∀ line, ws.countP (fun v => line ∈ v) = if line ∈ r then 1 else 0

theorem start_of_mem_head?_windowsFrom {stop : Nat} (h : start ≤ stop) :
    ∀ w ∈ (windowsFrom page start stop h).head?, w.start = start := by
  intro w hw
  rw [windowsFrom] at hw
  split at hw <;> exact Option.some.inj hw ▸ rfl

theorem isDivision_windowsFrom {stop : Nat} (h : start ≤ stop) :
    IsDivision (page + 1) ⟨start, stop, h⟩ (windowsFrom page start stop h) := by
  induction start, h using windowsFrom.induct page stop with
  | case1 start h hlt ih =>
    rw [windowsFrom, dif_pos hlt]
    refine ⟨List.cons_ne_nil _ _, ih.consecutive.cons (start_of_mem_head?_windowsFrom hlt),
      fun v hv => ?_, fun v hv => ?_, fun line => ?_⟩
    · rw [List.dropLast_cons_of_ne_nil ih.nonempty] at hv
      obtain rfl | hv := List.mem_cons.1 hv
      · exact Nat.add_assoc _ _ _
      · exact ih.full v hv
    · obtain rfl | hv := List.mem_cons.1 hv
      · exact Nat.le_of_eq (Nat.add_assoc _ _ _)
      · exact ih.short v hv
    · rw [List.countP_cons, ih.once line]
      simp only [decide_eq_true_eq, LineRange.mem_iff]
      split_ifs <;> omega
  | case2 start h hnot =>
    rw [windowsFrom, dif_neg hnot]
    refine ⟨List.cons_ne_nil _ _, .singleton _, fun v hv => absurd hv List.not_mem_nil,
      fun v hv => ?_, fun line => ?_⟩
    · rw [List.mem_singleton.1 hv]
      dsimp only
      omega
    · rw [List.countP_singleton]
      simp only [decide_eq_true_eq]

/-- The lines within bounds that a text gives are found without a fault.  A document has none of them
exactly if it ends before the first one; otherwise they are divided without a fault into windows of
the given length, which hold each of them once and no other line, or into one window. -/
theorem requested_lines_divided {text : String} {b : Bounds} (h : Bounds.parse text = .ok b)
    (lastLine : Nat) (hpage : 0 < page) :
    (requestedLines (some b) lastLine = .ok none ↔ lastLine < b.first - 1) ∧
      (b.first - 1 ≤ lastLine → ∃ r, requestedLines (some b) lastLine = .ok (some r) ∧
        (∀ line, line ∈ r ↔ b.first - 1 ≤ line ∧ line ≤ min (b.last - 1) lastLine) ∧
        windows r none = [r] ∧
        (∀ ws, Divides r page r.start ws ↔ ws = windows r (some page)) ∧
        IsDivision page r (windows r (some page))) := by
  obtain ⟨hpos, hle, hlimit⟩ := Bounds.of_parse h
  obtain ⟨page, rfl⟩ := Nat.exists_eq_add_one.2 hpage
  refine ⟨⟨fun hnone => ?_, requestedLines_of_lt hpos⟩, fun hexists => ?_⟩
  · by_contra hge
    rw [requestedLines_of_le hpos hle (Nat.not_lt.1 hge)] at hnone
    cases hnone
  · refine ⟨_, requestedLines_of_le hpos hle hexists, fun line => Iff.rfl, rfl, fun ws => ?_,
      isDivision_windowsFrom _⟩
    refine divides_iff ?_ _
    show min (b.last - 1) lastLine ≤ limit
    omega

/-- The last two lines of all, in windows as long as can be. -/
theorem requested_lines_divided_at_limit :
    Bounds.parse "4294967294:4294967295" = .ok ⟨4294967294, 4294967295⟩ ∧ 0 < limit ∧
      ∃ r, requestedLines (some ⟨4294967294, 4294967295⟩) limit = .ok (some r) ∧
        Divides r limit r.start (windows r (some limit)) ∧
        IsDivision limit r (windows r (some limit)) := by
  have hparse : Bounds.parse "4294967294:4294967295" = .ok ⟨4294967294, 4294967295⟩ := by
    decide +kernel
  have hpage : 0 < limit := by decide
  obtain ⟨-, hexists⟩ := requested_lines_divided hparse limit hpage
  obtain ⟨r, hr, -, -, hturns, hdivision⟩ := hexists (by decide)
  exact ⟨hparse, hpage, r, hr, (hturns _).2 rfl, hdivision⟩

end AnySpans.Report
