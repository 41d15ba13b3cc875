import AnySpans.Proofs.Scans
import AnySpans.Text.LineIndex
import Mathlib.Data.List.DropRight

/-!
# Positions of byte offsets

The position of a byte offset that does not lie inside of a character is told by the text before it:
its line counts the line feeds, and its column the UTF-16 units after the last of them, as long as the
offset is a number of 32 bits (`LineIndex.position_of_append`).  So such positions come in the order
of their offsets (`LineIndex.position_le`).  No line or column is greater than the offset.
-/

namespace AnySpans.Text

open AnySpans.Lines

/-! ### The last line of a text -/

/-- What follows the last line feed. -/
def lastLine (cs : List Char) : List Char := cs.rtakeWhile (· != '\n')

section

variable {cs ds : List Char}

theorem feed_not_mem_lastLine (cs : List Char) : '\n' ∉ lastLine cs := fun h => by
  simpa using List.mem_rtakeWhile_imp h

theorem lastLine_append (h : '\n' ∉ ds) : lastLine (cs ++ ds) = lastLine cs ++ ds := by
  have hall : ∀ c ∈ ds.reverse, (c != '\n') = true := fun c hc =>
    bne_iff_ne.2 fun hcn => h (hcn ▸ List.mem_reverse.1 hc)
  rw [lastLine, List.rtakeWhile, List.reverse_append, List.takeWhile_append_of_pos hall,
    List.reverse_append, List.reverse_reverse, lastLine, List.rtakeWhile]

/-- What is before the last line is empty or ends with a line feed. -/
theorem exists_eq_append_lastLine (cs : List Char) : ∃ before, cs = before ++ lastLine cs ∧
    (before = [] ∨ ∃ before', before = before' ++ ['\n']) := by
  induction cs using List.reverseRecOn with
  | nil => exact ⟨[], rfl, .inl rfl⟩
  | append_singleton cs c ih =>
    obtain ⟨before, hcs, hbefore⟩ := ih
    by_cases hc : c = '\n'
    · have hnone : lastLine (cs ++ [c]) = [] := List.rtakeWhile_concat_neg _ _ _ (by simp [hc])
      exact ⟨cs ++ [c], by rw [hnone, List.append_nil], .inr ⟨cs, by rw [hc]⟩⟩
    · have hmore : lastLine (cs ++ [c]) = lastLine cs ++ [c] :=
        lastLine_append fun h => hc (List.mem_singleton.1 h).symm
      exact ⟨before, by rw [hmore, ← List.append_assoc, ← hcs], hbefore⟩

end

/-! ### Cuts at boundaries -/

theorem dropBytes?_append (cs ds : List Char) :
    dropBytes? (cs ++ ds) (byteLength cs) = some ds := by
  induction cs with
  | nil => cases ds <;> rfl
  | cons c cs ih =>
    obtain ⟨n, hn⟩ : ∃ n, byteLength (c :: cs) = n + 1 :=
      Nat.exists_eq_add_one.2 (Nat.lt_of_lt_of_le c.utf8Size_pos (Nat.le_add_right _ _))
    have hcons : c.utf8Size + byteLength cs = n + 1 := hn
    rw [hn, List.cons_append, dropBytes?, if_pos (by omega), ← ih]
    congr 1
    omega

theorem dropBytes?_eq_some_iff {cs ds : List Char} {i : Nat} :
    dropBytes? cs i = some ds ↔ ∃ pre, cs = pre ++ ds ∧ byteLength pre = i := by
  constructor
  · intro h
    induction cs generalizing i with
    | nil =>
      cases i with
      | zero => exact ⟨[], Option.some.inj h, rfl⟩
      | succ i => cases h
    | cons c cs ih =>
      cases i with
      | zero => exact ⟨[], Option.some.inj h, rfl⟩
      | succ i =>
        rw [dropBytes?] at h
        split at h
        · obtain ⟨pre, rfl, hpre⟩ := ih h
          refine ⟨c :: pre, rfl, ?_⟩
          rw [byteLength_cons]
          omega
        · cases h
  · rintro ⟨pre, rfl, rfl⟩
    exact dropBytes?_append pre ds

/-- A text can be cut exactly where no character is. -/
theorem isSome_dropBytes?_iff {cs : List Char} {i : Nat} :
    (dropBytes? cs i).isSome ↔ Boundary cs i := by
  rw [Option.isSome_iff_exists, Boundary, exists_comm]
  simp only [dropBytes?_eq_some_iff]

instance (cs : List Char) (i : Nat) : Decidable (Boundary cs i) :=
  decidable_of_iff _ isSome_dropBytes?_iff

theorem takeBytes?_append (cs ds : List Char) :
    takeBytes? (cs ++ ds) (byteLength cs) = some cs := by
  induction cs with
  | nil => cases ds <;> rfl
  | cons c cs ih =>
    obtain ⟨n, hn⟩ : ∃ n, byteLength (c :: cs) = n + 1 :=
      Nat.exists_eq_add_one.2 (Nat.lt_of_lt_of_le c.utf8Size_pos (Nat.le_add_right _ _))
    have hcons : c.utf8Size + byteLength cs = n + 1 := hn
    have hrest : n + 1 - c.utf8Size = byteLength cs := by omega
    rw [hn, List.cons_append, takeBytes?, if_pos (by omega), hrest, ih, Option.map_some]

theorem takeBytes?_eq_some_iff {cs ds : List Char} {i : Nat} :
    takeBytes? cs i = some ds ↔ ∃ post, cs = ds ++ post ∧ byteLength ds = i := by
  constructor
  · intro h
    induction cs generalizing i ds with
    | nil =>
      cases i with
      | zero => exact ⟨[], by cases h; rfl, by cases h; rfl⟩
      | succ i => cases h
    | cons c cs ih =>
      cases i with
      | zero => exact ⟨c :: cs, by cases h; rfl, by cases h; rfl⟩
      | succ i =>
        rw [takeBytes?] at h
        split at h
        · obtain ⟨ds', hds, rfl⟩ := Option.map_eq_some_iff.1 h
          obtain ⟨post, rfl, hlength⟩ := ih hds
          refine ⟨post, rfl, ?_⟩
          rw [byteLength_cons]
          omega
        · cases h
  · rintro ⟨post, rfl, rfl⟩
    exact takeBytes?_append ds post

theorem sliceBytes?_append (before cs after : List Char) :
    sliceBytes? (before ++ cs ++ after) (byteLength before) (byteLength (before ++ cs)) =
      some cs := by
  rw [sliceBytes?, byteLength_append, if_pos (Nat.le_add_right _ _), List.append_assoc,
    dropBytes?_append, Option.bind_some, Nat.add_sub_cancel_left, takeBytes?_append]

/-- A slice stands in the text from the one offset to the other. -/
theorem sliceBytes?_eq_some_iff {cs ds : List Char} {i j : Nat} :
    sliceBytes? cs i j = some ds ↔ ∃ before after, cs = before ++ ds ++ after ∧
      byteLength before = i ∧ byteLength (before ++ ds) = j := by
  constructor
  · intro h
    rw [sliceBytes?] at h
    split at h
    · obtain ⟨rest, hrest, htake⟩ := Option.bind_eq_some_iff.1 h
      obtain ⟨before, rfl, hi⟩ := dropBytes?_eq_some_iff.1 hrest
      obtain ⟨after, rfl, hj⟩ := takeBytes?_eq_some_iff.1 htake
      refine ⟨before, after, (List.append_assoc ..).symm, hi, ?_⟩
      rw [byteLength_append]
      omega
    · cases h
  · rintro ⟨before, after, rfl, rfl, rfl⟩
    exact sliceBytes?_append before ds after

/-! ### Units and bytes -/

theorem units16_le_utf8Size (c : Char) : units16 c ≤ c.utf8Size := by
  unfold units16
  split
  · exact c.utf8Size_pos
  · rename_i hc
    have hsize : c.utf8Size = 4 := by
      have hval : 0x10000 ≤ c.val.toNat := Nat.not_lt.1 hc
      have hgt : ∀ m : UInt32, m.toNat < 0x10000 → ¬ c.val ≤ m := fun m hm hle =>
        absurd (Nat.le_trans hval (UInt32.le_iff_toNat_le.1 hle)) (Nat.not_le.2 hm)
      rw [Char.utf8Size, if_neg (hgt _ (by decide)), if_neg (hgt _ (by decide)),
        if_neg (hgt _ (by decide))]
    omega

theorem unitLength_le_byteLength (cs : List Char) : unitLength cs ≤ byteLength cs := by
  induction cs with
  | nil => exact Nat.le_refl _
  | cons c cs ih => exact Nat.add_le_add (units16_le_utf8Size c) ih

theorem length_le_byteLength (cs : List Char) : cs.length ≤ byteLength cs := by
  induction cs with
  | nil => exact Nat.le_refl _
  | cons c cs ih =>
    have := c.utf8Size_pos
    rw [List.length_cons, byteLength_cons]
    omega

theorem byteLength_eq_length {cs : List Char} (h : ∀ c ∈ cs, c.utf8Size = 1) :
    byteLength cs = cs.length := by
  induction cs with
  | nil => rfl
  | cons c cs ih =>
    rw [byteLength_cons, h c List.mem_cons_self, ih fun c' hc' => h c' (List.mem_cons_of_mem c hc'),
      List.length_cons, Nat.add_comm]

/-- A text of characters of one byte can be cut anywhere. -/
theorem boundary_of_le_length {cs : List Char} (h : ∀ c ∈ cs, c.utf8Size = 1) {i : Nat}
    (hi : i ≤ cs.length) : Boundary cs i := by
  have htake : ∀ c ∈ cs.take i, c.utf8Size = 1 := fun c hc => h c (List.mem_of_mem_take hc)
  exact ⟨cs.take i, cs.drop i, (List.take_append_drop i cs).symm,
    (byteLength_eq_length htake).trans (List.length_take_of_le hi)⟩

/-! ### Where lines start -/

theorem startsAfter_append (byte : Nat) (cs ds : List Char) : startsAfter byte (cs ++ ds) =
    startsAfter byte cs ++ startsAfter (byte + byteLength cs) ds := by
  induction cs generalizing byte with
  | nil => rfl
  | cons c cs ih =>
    simp only [List.cons_append, startsAfter, ih, byteLength_cons, Nat.add_assoc]
    split <;> rfl

theorem length_startsAfter (byte : Nat) (cs : List Char) :
    (startsAfter byte cs).length = cs.count '\n' := by
  induction cs generalizing byte with
  | nil => rfl
  | cons c cs ih =>
    rw [startsAfter, List.count_cons]
    split
    · rename_i hc
      rw [List.length_cons, ih, hc, if_pos BEq.rfl]
    · rename_i hc
      rw [ih, if_neg (by simpa using hc), Nat.add_zero]

theorem mem_startsAfter {byte start : Nat} {cs : List Char} (h : start ∈ startsAfter byte cs) :
    byte < start ∧ start ≤ byte + byteLength cs := by
  induction cs generalizing byte with
  | nil => cases h
  | cons c cs ih =>
    have hc := c.utf8Size_pos
    have htail : start ∈ startsAfter (byte + c.utf8Size) cs →
        byte < start ∧ start ≤ byte + byteLength (c :: cs) := fun h => by
      have := ih h
      rw [byteLength_cons]
      omega
    rw [startsAfter] at h
    split at h
    · obtain rfl | h := List.mem_cons.1 h
      · rw [byteLength_cons]
        omega
      · exact htail h
    · exact htail h

namespace LineIndex

variable (before after : List Char)

/-- The line of an offset counts the line feeds before it. -/
theorem lineOf_of_append :
    (ofText (before ++ after)).lineOf (byteLength before) = before.count '\n' := by
  have hbefore : ∀ start ∈ startsAfter 0 before, decide (start ≤ byteLength before) = true :=
    fun start h => decide_eq_true (Nat.zero_add (byteLength before) ▸ (mem_startsAfter h).2)
  have hafter : (startsAfter (0 + byteLength before) after).takeWhile (· ≤ byteLength before) =
      [] := by
    refine List.takeWhile_eq_nil_iff.2 fun hpos hle => ?_
    have hgt := (mem_startsAfter (List.getElem_mem hpos)).1
    exact absurd (of_decide_eq_true hle) (Nat.not_le.2 (Nat.lt_of_le_of_lt (Nat.le_add_left _ 0) hgt))
  have hzero : decide (0 ≤ byteLength before) = true := decide_eq_true (Nat.zero_le _)
  simp only [lineOf, ofText, List.takeWhile_cons, hzero, if_true]
  rw [startsAfter_append, List.takeWhile_append_of_pos hbefore, hafter, List.append_nil,
    List.length_cons, length_startsAfter, Nat.add_sub_cancel]

/-- After a line feed, or at the start of a text, a line starts. -/
theorem startOf_of_append (h : before = [] ∨ ∃ before', before = before' ++ ['\n']) :
    (ofText (before ++ after)).startOf (before.count '\n') = byteLength before := by
  obtain rfl | ⟨before', rfl⟩ := h
  · rfl
  · have hcount : (before' ++ ['\n']).count '\n' = (startsAfter 0 before').length + 1 := by
      rw [List.count_append, length_startsAfter, List.count_singleton_self]
    have hstarts : startsAfter 0 (before' ++ ['\n'] ++ after) = startsAfter 0 before' ++
        (byteLength before' + 1) :: startsAfter (byteLength before' + 1) after := by
      rw [List.append_assoc, startsAfter_append, Nat.zero_add]
      rfl
    have hget : (startsAfter 0 before' ++ (byteLength before' + 1) ::
        startsAfter (byteLength before' + 1) after)[(startsAfter 0 before').length]? =
        some (byteLength before' + 1) := by
      rw [List.getElem?_append_right (Nat.le_refl _), Nat.sub_self, List.getElem?_cons_zero]
    rw [startOf, ofText, hcount, hstarts, List.getD_cons_succ, List.getD_eq_getElem?_getD, hget,
      Option.getD_some, byteLength_append]
    rfl

/-- Before an offset there are no more line feeds than bytes, and no more units since the last one. -/
theorem counts_le_offset :
    before.count '\n' ≤ byteLength before ∧ unitLength (lastLine before) ≤ byteLength before := by
  refine ⟨Nat.le_trans List.count_le_length (length_le_byteLength before), ?_⟩
  obtain ⟨lines, hlines, -⟩ := exists_eq_append_lastLine before
  have hlength := congrArg byteLength hlines
  rw [byteLength_append] at hlength
  have := unitLength_le_byteLength (lastLine before)
  omega

/-- The line and the column of an offset, cut to 32 bits. -/
theorem position_of_append_mod : (ofText (before ++ after)).position (before ++ after)
    (byteLength before) =
      ⟨before.count '\n' % (limit + 1), unitLength (lastLine before) % (limit + 1)⟩ := by
  obtain ⟨lines, hlines, hend⟩ := exists_eq_append_lastLine before
  have hcount : before.count '\n' = lines.count '\n' := by
    conv_lhs => rw [hlines]
    rw [List.count_append, List.count_eq_zero.2 (feed_not_mem_lastLine before), Nat.add_zero]
  have hstart : (ofText (before ++ after)).startOf (before.count '\n') = byteLength lines := by
    rw [hcount]
    conv_lhs => rw [hlines, List.append_assoc]
    exact startOf_of_append lines _ hend
  have hslice : sliceBytes? (before ++ after) (byteLength lines) (byteLength before) =
      some (lastLine before) := by
    have := sliceBytes?_append lines (lastLine before) after
    rwa [← hlines] at this
  simp only [position, lineOf_of_append, hstart, hslice]

variable {before} in
theorem position_of_append (h : byteLength before ≤ limit) :
    (ofText (before ++ after)).position (before ++ after) (byteLength before) =
      ⟨before.count '\n', unitLength (lastLine before)⟩ := by
  obtain ⟨hline, hcolumn⟩ := counts_le_offset before
  rw [position_of_append_mod, Nat.mod_eq_of_lt (by omega), Nat.mod_eq_of_lt (by omega)]

variable {text : List Char} {i j : Nat}

theorem exists_between (hi : Boundary text i) (hj : Boundary text j) (hij : i ≤ j) :
    ∃ before between after, text = before ++ between ++ after ∧ byteLength before = i ∧
      byteLength (before ++ between) = j := by
  obtain ⟨before, after, rfl, rfl⟩ := hi
  obtain ⟨before', after', htext, rfl⟩ := hj
  obtain ⟨between, rfl⟩ : ∃ between, before' = before ++ between := by
    obtain ⟨ds, hds, -⟩ | ⟨ds, rfl, -⟩ := List.append_eq_append_iff.1 htext
    · exact ⟨ds, hds⟩
    · refine ⟨[], ?_⟩
      cases ds with
      | nil => rw [List.append_nil, List.append_nil]
      | cons d ds =>
        have := d.utf8Size_pos
        rw [byteLength_append, byteLength_cons] at hij
        omega
  exact ⟨before, between, after', htext, rfl, rfl⟩

theorem unitLength_pos {cs : List Char} (h : cs ≠ []) : 0 < unitLength cs := by
  cases cs with
  | nil => exact absurd rfl h
  | cons c cs =>
    rw [unitLength_cons]
    unfold units16
    split <;> omega

/-- Positions come in the order of their offsets, and different offsets have different ones. -/
theorem position_lt (hi : Boundary text i) (hj : Boundary text j) (hij : i < j) (hlimit : j ≤ limit) :
    (ofText text).position text i < (ofText text).position text j := by
  have hle : i ≤ limit := Nat.le_trans (Nat.le_of_lt hij) hlimit
  obtain ⟨before, between, after, rfl, rfl, rfl⟩ := exists_between hi hj (Nat.le_of_lt hij)
  have hne : between ≠ [] := by
    rintro rfl
    rw [List.append_nil] at hij
    exact Nat.lt_irrefl _ hij
  rw [position_of_append _ hlimit, List.append_assoc, position_of_append _ hle, Position.lt_iff,
    List.count_append]
  by_cases hfeed : '\n' ∈ between
  · have := List.count_pos_iff.2 hfeed
    exact .inl (Nat.lt_add_of_pos_right this)
  · rw [List.count_eq_zero.2 hfeed, lastLine_append hfeed, unitLength_append]
    exact .inr ⟨rfl, Nat.lt_add_of_pos_right (unitLength_pos hne)⟩

theorem position_le (hi : Boundary text i) (hj : Boundary text j) (hij : i ≤ j) (hlimit : j ≤ limit) :
    (ofText text).position text i ≤ (ofText text).position text j := by
  obtain rfl | hlt := Nat.eq_or_lt_of_le hij
  · exact .inr ⟨rfl, Nat.le_refl _⟩
  · exact (position_lt hi hj hlt hlimit).imp_right fun h => ⟨h.1, Nat.le_of_lt h.2⟩

/-- Neither the line nor the column of an offset is greater than the offset. -/
theorem position_le_offset (hi : Boundary text i) :
    ((ofText text).position text i).line ≤ i ∧ ((ofText text).position text i).character ≤ i := by
  obtain ⟨before, after, rfl, rfl⟩ := hi
  obtain ⟨hline, hcolumn⟩ := counts_le_offset before
  rw [position_of_append_mod]
  exact ⟨Nat.le_trans (Nat.mod_le _ _) hline, Nat.le_trans (Nat.mod_le _ _) hcolumn⟩

end LineIndex

end AnySpans.Text
