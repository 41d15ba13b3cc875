import AnySpans.Proofs.Findings
import AnySpans.Proofs.Positions

/-!
# Names of findings

A finding is named by the text between the columns of its range on the line where it starts.  Lines
are numbered by the line feeds before them (`splitLines_append`), and columns count the units before
them (`columnsFrom_append`); so the name for the positions of two offsets is the text between these
offsets (`finding_named_by_source`), as far as it is on one line.
-/

namespace AnySpans.Text

variable {line cs ds : List Char}

/-! ### Lines in a text -/

theorem linesFrom_append_feed (current before cs : List Char) :
    linesFrom current (before ++ '\n' :: cs) =
      linesFrom current (before ++ ['\n']) ++ linesFrom [] cs := by
  induction before generalizing current with
  | nil => rfl
  | cons c before ih =>
    rw [List.cons_append, List.cons_append, linesFrom, linesFrom]
    split
    · rw [ih, List.cons_append]
    · exact ih (c :: current)

theorem length_linesFrom_feed (current before : List Char) :
    (linesFrom current (before ++ ['\n'])).length = before.count '\n' + 1 := by
  induction before generalizing current with
  | nil => rfl
  | cons c before ih =>
    rw [List.cons_append, linesFrom, List.count_cons]
    split
    · rename_i hc
      rw [List.length_cons, ih, hc, if_pos BEq.rfl]
    · rename_i hc
      rw [ih, if_neg (by simpa using hc), Nat.add_zero]

/-- Where a line starts, so do the lines of what follows. -/
theorem splitLines_append (h : cs = [] ∨ ∃ before, cs = before ++ ['\n']) (ds : List Char) (n : Nat) :
    (splitLines (cs ++ ds))[cs.count '\n' + n]? = (splitLines ds)[n]? := by
  obtain rfl | ⟨before, rfl⟩ := h
  · rw [List.nil_append, List.count_nil, Nat.zero_add]
  · have hcount : (before ++ ['\n']).count '\n' = (linesFrom [] (before ++ ['\n'])).length := by
      rw [length_linesFrom_feed, List.count_append, List.count_singleton_self]
    rw [splitLines, List.append_assoc, List.singleton_append, linesFrom_append_feed, hcount,
      List.getElem?_append_right (Nat.le_add_right _ _), Nat.add_sub_cancel_left, splitLines]

theorem linesFrom_of_lineless (h : '\n' ∉ line) (current cs : List Char) :
    linesFrom current (line ++ cs) = linesFrom (line.reverse ++ current) cs := by
  induction line generalizing current with
  | nil => rfl
  | cons c line ih =>
    rw [List.mem_cons, not_or] at h
    rw [List.cons_append, linesFrom, if_neg (Ne.symm h.1), ih h.2, List.reverse_cons,
      List.append_assoc, List.singleton_append]

/-- The first line of a text, with a carriage return at its end or without it. -/
theorem head?_splitLines (h : '\n' ∉ line) (hne : line ≠ []) (hcs : cs = [] ∨ ∃ ds, cs = '\n' :: ds) :
    (splitLines (line ++ cs))[0]? = some line ∨
      (splitLines (line ++ cs))[0]? = some (dropReturn line) := by
  rw [splitLines, linesFrom_of_lineless h, List.append_nil]
  obtain rfl | ⟨ds, rfl⟩ := hcs
  · rw [linesFrom, if_neg (by simpa using hne), List.reverse_reverse]
    exact .inl rfl
  · rw [linesFrom, if_pos rfl, List.reverse_reverse]
    exact .inr rfl

theorem exists_dropReturn (h : '\r' ∉ ds) (hne : ds ≠ []) (before after : List Char) :
    ∃ after', dropReturn (before ++ ds ++ after) = before ++ ds ++ after' := by
  unfold dropReturn
  split
  · rename_i hlast
    by_cases hafter : after = []
    · refine absurd ?_ h
      rw [hafter, List.append_nil, List.getLast?_append_of_ne_nil _ hne] at hlast
      exact List.mem_of_getLast? hlast
    · exact ⟨after.dropLast, List.dropLast_append_of_ne_nil hafter⟩
  · exact ⟨after, rfl⟩

theorem unitLength_dropReturn_le (line : List Char) : unitLength (dropReturn line) ≤ unitLength line := by
  unfold dropReturn
  split
  · rename_i hlast
    have hunits := congrArg unitLength (List.dropLast_append_getLast? '\r' hlast)
    rw [unitLength_append] at hunits
    exact hunits ▸ Nat.le_add_right _ _
  · exact Nat.le_refl _

theorem unitLength_reverse (cs : List Char) : unitLength cs.reverse = unitLength cs := by
  induction cs with
  | nil => rfl
  | cons c cs ih =>
    rw [List.reverse_cons, unitLength_append, ih, unitLength_cons, unitLength_cons, unitLength_nil]
    omega

/-- No line has more units than its text. -/
theorem unitLength_le_of_mem_linesFrom {current : List Char} (h : line ∈ linesFrom current cs) :
    unitLength line ≤ unitLength current + unitLength cs := by
  induction cs generalizing current with
  | nil =>
    rw [linesFrom] at h
    split at h
    · cases h
    · rw [List.mem_singleton.1 h, unitLength_reverse]
      exact Nat.le_add_right _ _
  | cons c cs ih =>
    rw [linesFrom] at h
    split at h
    · obtain rfl | h := List.mem_cons.1 h
      · have := unitLength_dropReturn_le current.reverse
        rw [unitLength_reverse] at this
        omega
      · have := ih h
        rw [unitLength_nil] at this
        rw [unitLength_cons]
        omega
    · have := ih h
      rw [unitLength_cons] at this ⊢
      omega

end AnySpans.Text

namespace AnySpans.Report

open AnySpans.Lines AnySpans.Text

/-! ### Columns in a line -/

theorem columnsFrom_self (column start : Nat) (cs : List Char) : columnsFrom column start start cs = [] := by
  induction cs generalizing column with
  | nil => rfl
  | cons c cs ih =>
    rw [columnsFrom]
    split
    · rfl
    · exact ih _

theorem units16_pos (c : Char) : 0 < units16 c := by
  unfold units16
  split <;> omega

theorem columnsFrom_of_le {column start : Nat} (h : start ≤ column) (cs after : List Char) :
    columnsFrom column start (column + unitLength cs) (cs ++ after) = cs := by
  induction cs generalizing column with
  | nil => cases after <;> simp [columnsFrom]
  | cons c cs ih =>
    have hc := units16_pos c
    rw [List.cons_append, columnsFrom, unitLength_cons, if_neg (by omega), if_pos h,
      ← Nat.add_assoc, ih (by omega)]

/-- Between the columns before and after some characters of a line there are these characters. -/
theorem columnsFrom_append (column : Nat) (before cs after : List Char) :
    columnsFrom column (column + unitLength before) (column + unitLength (before ++ cs))
      (before ++ cs ++ after) = cs := by
  induction before generalizing column with
  | nil => exact columnsFrom_of_le (Nat.le_refl _) cs after
  | cons c before ih =>
    have hc := units16_pos c
    rw [List.cons_append, List.cons_append, columnsFrom, unitLength_cons, unitLength_cons,
      if_neg (by rw [unitLength_append]; omega), if_neg (by omega), ← Nat.add_assoc, ← Nat.add_assoc,
      ih]

/-! ### Names -/

variable {before name after : List Char}

/-- The line on which some characters stand. -/
theorem exists_line (hname : name ≠ []) (hfeed : '\n' ∉ name) (hreturn : '\r' ∉ name)
    (before after : List Char) :
    ∃ rest, (splitLines (before ++ name ++ after))[before.count '\n']? =
      some (lastLine before ++ name ++ rest) := by
  obtain ⟨lines, hlines, hend⟩ := exists_eq_append_lastLine before
  have hcount : before.count '\n' = lines.count '\n' := by
    conv_lhs => rw [hlines]
    rw [List.count_append, List.count_eq_zero.2 (feed_not_mem_lastLine before), Nat.add_zero]
  let rest := after.takeWhile (· != '\n')
  let further := after.dropWhile (· != '\n')
  have hrest : '\n' ∉ rest := fun h => by simpa using List.mem_takeWhile_imp h
  have hfurther : further = [] ∨ ∃ cs, further = '\n' :: cs := by
    have hnot := List.head?_dropWhile_not (· != '\n') after
    cases h : further with
    | nil => exact .inl rfl
    | cons c cs =>
      rw [show after.dropWhile (· != '\n') = c :: cs from h] at hnot
      exact .inr ⟨cs, congrArg (· :: cs) (by simpa using hnot)⟩
  have htext : before ++ name ++ after = lines ++ ((lastLine before ++ name ++ rest) ++ further) := by
    conv_lhs => rw [hlines, ← List.takeWhile_append_dropWhile (p := (· != '\n')) (l := after)]
    simp only [List.append_assoc, rest, further]
  have hline : '\n' ∉ lastLine before ++ name ++ rest := by
    simp only [List.mem_append, not_or]
    exact ⟨⟨feed_not_mem_lastLine before, hfeed⟩, hrest⟩
  have hne : lastLine before ++ name ++ rest ≠ [] := by simp [hname]
  rw [htext, hcount, ← Nat.add_zero (lines.count '\n'), splitLines_append hend]
  obtain hwhole | hcut := head?_splitLines hline hne hfurther
  · exact ⟨rest, hwhole⟩
  · obtain ⟨rest', hrest'⟩ := exists_dropReturn hreturn hname (lastLine before) rest
    exact ⟨rest', hcut.trans (congrArg some hrest')⟩

/-- Between the positions before and after some characters of one line there are these characters. -/
theorem textOn_of_append (hfeed : '\n' ∉ name) (hreturn : '\r' ∉ name) :
    textOn (before ++ name ++ after) ⟨⟨before.count '\n', unitLength (lastLine before)⟩,
      ⟨before.count '\n', unitLength (lastLine before ++ name)⟩⟩ = name := by
  by_cases hname : name = []
  · subst hname
    simp only [textOn, List.append_nil, if_true, columnsFrom_self]
    split <;> rfl
  · obtain ⟨rest, hline⟩ := exists_line hname hfeed hreturn before after
    have hcolumns := columnsFrom_append 0 (lastLine before) name rest
    rw [Nat.zero_add, Nat.zero_add] at hcolumns
    simp only [textOn, hline, if_true, hcolumns]

/-- In a text of less than `2 ^ 32` bytes the finding for the positions of two offsets is named by the
text between them, if that is on one line and ends before byte `limit`, and no column that is counted
for it exceeds `limit`. -/
theorem finding_named_by_source {text : List Char} (hsize : byteLength text < 2 ^ 32) {i j : Nat}
    (hi : Boundary text i) (hj : Boundary text j) (hij : i ≤ j) (hlimit : j < limit) {r : Range}
    (hstart : r.start = (LineIndex.ofText text).position text i)
    (hstop : r.stop = (LineIndex.ofText text).position text j) (file : String) :
    (∀ line ∈ splitLines text, unitLength line ≤ limit) ∧
      ∃ name, sliceBytes? text i j = some name ∧ ('\n' ∉ name → '\r' ∉ name →
        textOn text r = name ∧
          Finding.of file text r = .ok ⟨file, r.start.line + 1, r.start.character + 1,
            r.stop.line + 1, r.stop.character + 1, String.ofList name⟩) := by
  have hbound := LineIndex.position_le_offset hj
  rw [← hstop] at hbound
  refine ⟨fun line hline => ?_, ?_⟩
  · have := unitLength_le_of_mem_linesFrom hline
    rw [unitLength_nil, Nat.zero_add] at this
    exact Nat.le_trans this
      (Nat.le_trans (unitLength_le_byteLength text) (Nat.le_of_lt_succ hsize))
  obtain ⟨before, name, after, rfl, rfl, rfl⟩ := LineIndex.exists_between hi hj hij
  refine ⟨name, sliceBytes?_append before name after, fun hfeed hreturn => ?_⟩
  have hstart' : r.start = ⟨before.count '\n', unitLength (lastLine before)⟩ := by
    rw [hstart, List.append_assoc]
    exact LineIndex.position_of_append _ (Nat.le_trans hij (Nat.le_of_lt hlimit))
  have hstop' : r.stop = ⟨before.count '\n', unitLength (lastLine before ++ name)⟩ := by
    rw [hstop, LineIndex.position_of_append _ (Nat.le_of_lt hlimit), List.count_append,
      List.count_eq_zero.2 hfeed, Nat.add_zero, lastLine_append hfeed]
  have hname : textOn (before ++ name ++ after) r = name := by
    have hrange : r = ⟨r.start, r.stop⟩ := rfl
    rw [hrange, hstart', hstop']
    exact textOn_of_append hfeed hreturn
  have hlines : r.start.line = r.stop.line := by rw [hstart', hstop']
  have hcolumns : r.start.character ≤ r.stop.character := by
    rw [hstart', hstop', unitLength_append]
    exact Nat.le_add_right _ _
  refine ⟨hname, ?_⟩
  rw [Finding.of_eq, hname, if_pos]
  omega

/-- The finding for `é`, which follows a character of two units on the second line. -/
theorem finding_named_by_source_after_emoji :
    byteLength ['x', '\r', '\n', '😀', 'é', ' '] < 2 ^ 32 ∧
      Boundary ['x', '\r', '\n', '😀', 'é', ' '] 7 ∧ Boundary ['x', '\r', '\n', '😀', 'é', ' '] 9 ∧
      9 < limit ∧ Finding.of "a.ts" ['x', '\r', '\n', '😀', 'é', ' '] ⟨⟨1, 2⟩, ⟨1, 3⟩⟩ =
        .ok ⟨"a.ts", 2, 3, 2, 4, "é"⟩ := by
  have hsize : byteLength ['x', '\r', '\n', '😀', 'é', ' '] < 2 ^ 32 := by decide
  have hi : Boundary ['x', '\r', '\n', '😀', 'é', ' '] 7 := by decide
  have hj : Boundary ['x', '\r', '\n', '😀', 'é', ' '] 9 := by decide
  have hlimit : 9 < limit := by decide
  obtain ⟨-, name, hslice, hnamed⟩ := finding_named_by_source (r := ⟨⟨1, 2⟩, ⟨1, 3⟩⟩) hsize hi hj
    (by decide) hlimit (by decide) (by decide) "a.ts"
  obtain rfl : ['é'] = name := Option.some.inj hslice
  exact ⟨hsize, hi, hj, hlimit, (hnamed (by decide) (by decide)).2⟩

/-- A text of one line. -/
def letters (n : Nat) : List Char := List.replicate n 'a'

theorem utf8Size_of_mem_letters {n : Nat} {c : Char} (hc : c ∈ letters n) : c.utf8Size = 1 := by
  rw [List.eq_of_mem_replicate hc]
  rfl

theorem length_letters (n : Nat) : (letters n).length = n := List.length_replicate

theorem byteLength_letters (n : Nat) : byteLength (letters n) = n :=
  (byteLength_eq_length fun _ => utf8Size_of_mem_letters).trans (length_letters n)

theorem boundary_letters {n i : Nat} (hi : i ≤ n) : Boundary (letters n) i :=
  boundary_of_le_length (fun _ => utf8Size_of_mem_letters) ((length_letters n).symm ▸ hi)

theorem feed_not_mem_letters (n : Nat) : '\n' ∉ letters n := fun h =>
  absurd (List.eq_of_mem_replicate h) (by decide)

theorem unitLength_letters (n : Nat) : unitLength (letters n) = n := by
  induction n with
  | zero => rfl
  | succ n ih =>
    rw [letters, List.replicate_succ, unitLength_cons]
    exact (congrArg (1 + ·) ih).trans (Nat.add_comm 1 n)

/-- The end of such a text is in the column of its length. -/
theorem character_position_letters {n : Nat} (hn : n ≤ limit) :
    ((LineIndex.ofText (letters n)).position (letters n) n).character = n := by
  have hlength : byteLength (letters n) ≤ limit := Nat.le_trans (Nat.le_of_eq (byteLength_letters n)) hn
  have hline : lastLine (letters n) = letters n :=
    show lastLine ([] ++ letters n) = lastLine [] ++ letters n from
      lastLine_append (feed_not_mem_letters n)
  have hend := LineIndex.position_of_append [] hlength
  rw [List.append_nil, byteLength_letters, hline, unitLength_letters] at hend
  rw [hend]

/-- A finding counts from one, so there is none for a text that ends in column `limit`. -/
theorem finding_fails_on_letters : byteLength (letters limit) < 2 ^ 32 ∧
    Boundary (letters limit) 0 ∧ Boundary (letters limit) limit ∧
    sliceBytes? (letters limit) 0 limit = some (letters limit) ∧
    '\n' ∉ letters limit ∧ '\r' ∉ letters limit ∧
    Finding.of "a.ts" (letters limit) ⟨(LineIndex.ofText (letters limit)).position (letters limit) 0,
      (LineIndex.ofText (letters limit)).position (letters limit) limit⟩ = .error .sum := by
  have hslice := sliceBytes?_append [] (letters limit) []
  rw [List.append_nil, List.nil_append, byteLength_letters] at hslice
  refine ⟨(byteLength_letters limit).trans_lt (by decide), boundary_letters (Nat.zero_le _),
    boundary_letters (Nat.le_refl _), hslice, feed_not_mem_letters limit, fun h => ?_, ?_⟩
  · exact absurd (List.eq_of_mem_replicate h) (by decide)
  · rw [Finding.of_eq, if_neg]
    rintro ⟨-, -, hcharacter⟩
    exact absurd hcharacter
      (Nat.not_lt.2 (Nat.le_of_eq (character_position_letters (Nat.le_refl _)).symm))

end AnySpans.Report
