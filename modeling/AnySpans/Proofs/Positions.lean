import AnySpans.Proofs.WellFormed
import Mathlib.Algebra.Group.Nat.Defs

/-!
# Positions of all offsets

Every byte offset has a line: the line starts ascend, and there is a last one that is not after the
offset (`LineIndex.exists_start`).  So each step from an offset to its position can be made, whether
the offset is one of the text or not, and in a text of less than `2 ^ 32` bytes no coordinate is cut
(`LineIndex.position?_eq`).  By `LineIndex.positions_exact` the position of an offset between two
characters counts the line feeds and the units before it, and tells it from all other such offsets.
-/

namespace AnySpans.Text

open AnySpans.Lines

/-- The last of the elements that satisfy a test, up to the first one that does not. -/
theorem exists_getElem?_takeWhile {α : Type} {p : α → Bool} {a : α} (ha : p a = true) (as : List α) :
    ∃ b, (a :: as)[(as.takeWhile p).length]? = some b ∧ p b = true ∧
      ∀ c, (a :: as)[(as.takeWhile p).length + 1]? = some c → p c = false := by
  induction as generalizing a with
  | nil => exact ⟨a, rfl, ha, fun c h => by cases h⟩
  | cons b bs ih =>
    by_cases hb : p b = true
    · rw [List.takeWhile_cons_of_pos hb]
      exact ih hb
    · rw [List.takeWhile_cons_of_neg hb]
      refine ⟨a, rfl, ha, fun c h => ?_⟩
      obtain rfl : b = c := Option.some.inj h
      exact Bool.eq_false_iff.2 hb

theorem pairwise_startsAfter (byte : Nat) (cs : List Char) :
    (startsAfter byte cs).Pairwise (· < ·) := by
  induction cs generalizing byte with
  | nil => exact .nil
  | cons c cs ih =>
    rw [startsAfter]
    split
    · exact .cons (fun start h => (mem_startsAfter h).1) (ih _)
    · exact ih _

theorem byteLength_slice_le {cs ds : List Char} {i j : Nat} (h : sliceBytes? cs i j = some ds) :
    byteLength ds ≤ byteLength cs := by
  obtain ⟨before, after, rfl, -⟩ := sliceBytes?_eq_some_iff.1 h
  simp only [byteLength_append]
  omega

namespace LineIndex

/-- The position of a byte offset, every step of which is checked: the line has to be one of the
index, and its start must not be after an offset it is subtracted from.  Lines and units are not
cut. -/
def position? (x : LineIndex) (cs : List Char) (byte : Nat) : Option Position := do
  let start ← x.starts[x.lineOf byte]?
  let column ← match sliceBytes? cs start byte with
    | some before => some (unitLength before)
    | none => if start ≤ byte then some ((byte - start) % (limit + 1)) else none
  return ⟨x.lineOf byte, column⟩

variable {text : List Char} {byte i j : Nat}

/-- The line starts of a text ascend. -/
theorem pairwise_starts (text : List Char) : (ofText text).starts.Pairwise (· < ·) :=
  .cons (fun _ h => (mem_startsAfter h).1) (pairwise_startsAfter 0 text)

/-- The line of an offset is the last one that does not start after it. -/
theorem exists_start (text : List Char) (byte : Nat) :
    ∃ start, (ofText text).starts[(ofText text).lineOf byte]? = some start ∧ start ≤ byte ∧
      ∀ next, (ofText text).starts[(ofText text).lineOf byte + 1]? = some next → byte < next := by
  have hzero : decide (0 ≤ byte) = true := decide_eq_true (Nat.zero_le byte)
  have hline : (ofText text).lineOf byte = ((startsAfter 0 text).takeWhile (· ≤ byte)).length := by
    simp only [lineOf, ofText, List.takeWhile_cons, hzero, if_true, List.length_cons,
      Nat.add_sub_cancel]
  obtain ⟨start, hstart, hle, hnext⟩ :=
    exists_getElem?_takeWhile (p := (· ≤ byte)) hzero (startsAfter 0 text)
  rw [hline]
  exact ⟨start, hstart, of_decide_eq_true hle,
    fun next h => Nat.not_le.1 (of_decide_eq_false (hnext next h))⟩

theorem lineOf_le (text : List Char) (byte : Nat) : (ofText text).lineOf byte ≤ byteLength text := by
  have htaken := (List.takeWhile_sublist (l := (ofText text).starts) (· ≤ byte)).length_le
  have hstarts : (ofText text).starts.length = text.count '\n' + 1 :=
    congrArg (· + 1) (length_startsAfter 0 text)
  have hcount := List.count_le_length (a := '\n') (l := text)
  have hlength := length_le_byteLength text
  rw [lineOf]
  omega

/-- In a text of less than `2 ^ 32` bytes every offset has a position, and no coordinate is cut. -/
theorem position?_eq (hsize : byteLength text < 2 ^ 32) (byte : Nat) :
    (ofText text).position? text byte = some ((ofText text).position text byte) := by
  obtain ⟨start, hstart, hle, -⟩ := exists_start text byte
  have hline : (ofText text).lineOf byte % (limit + 1) = (ofText text).lineOf byte :=
    Nat.mod_eq_of_lt (Nat.lt_of_le_of_lt (lineOf_le text byte) hsize)
  have hstartOf : (ofText text).startOf ((ofText text).lineOf byte) = start := by
    rw [startOf, List.getD_eq_getElem?_getD, hstart, Option.getD_some]
  simp only [position?, position, hstart, hstartOf, hline, Option.bind_eq_bind, Option.bind_some]
  cases hslice : sliceBytes? text start byte with
  | none => simp only [if_pos hle, Option.pure_def]
  | some before =>
    have hunits := Nat.le_trans (unitLength_le_byteLength before) (byteLength_slice_le hslice)
    have hcolumn : unitLength before % (limit + 1) = unitLength before :=
      Nat.mod_eq_of_lt (Nat.lt_of_le_of_lt hunits hsize)
    simp only [hcolumn, Option.pure_def]

theorem position_lt_iff (hsize : byteLength text ≤ limit) (hi : Boundary text i)
    (hj : Boundary text j) :
    (ofText text).position text i < (ofText text).position text j ↔ i < j := by
  refine ⟨fun h => ?_, fun h => position_lt hi hj h (Nat.le_trans hj.le hsize)⟩
  by_contra hji
  exact Position.not_le.2 h (position_le hj hi (Nat.not_lt.1 hji) (Nat.le_trans hi.le hsize))

/-- Every byte offset of a text of less than `2 ^ 32` bytes has a position, all steps to which can be
made.  For an offset between two characters it counts the line feeds before the offset and the
UTF-16 units from the last of them on; such positions are in the order of their offsets, and no two of
them are the same. -/
theorem positions_exact (hsize : byteLength text < 2 ^ 32) :
    (∀ before after, text = before ++ after →
      (ofText text).position text (byteLength before) =
        ⟨before.count '\n', unitLength (lastLine before)⟩) ∧
      (∀ i j, Boundary text i → Boundary text j →
        ((ofText text).position text i < (ofText text).position text j ↔ i < j) ∧
          ((ofText text).position text i = (ofText text).position text j → i = j)) ∧
      (ofText text).starts.Pairwise (· < ·) ∧
      ∀ byte,
        (∃ start, (ofText text).starts[(ofText text).lineOf byte]? = some start ∧ start ≤ byte ∧
          ∀ next, (ofText text).starts[(ofText text).lineOf byte + 1]? = some next →
            byte < next) ∧
        (ofText text).position? text byte = some ((ofText text).position text byte) := by
  have hlimit : byteLength text ≤ limit := Nat.le_of_lt_succ hsize
  refine ⟨?_, fun i j hi hj => ⟨position_lt_iff hlimit hi hj, fun h => ?_⟩, pairwise_starts text,
    fun byte => ⟨exists_start text byte, position?_eq hsize byte⟩⟩
  · rintro before after rfl
    have hbefore : Boundary (before ++ after) (byteLength before) := ⟨before, after, rfl, rfl⟩
    exact position_of_append after (Nat.le_trans hbefore.le hlimit)
  · refine Nat.le_antisymm (Nat.not_lt.1 fun hlt => ?_) (Nat.not_lt.1 fun hlt => ?_)
    · exact Position.not_le.2 ((position_lt_iff hlimit hj hi).2 hlt) (h ▸ Position.le_refl _)
    · exact Position.not_le.2 ((position_lt_iff hlimit hi hj).2 hlt) (h ▸ Position.le_refl _)

/-- The character after `😀` is the third of its line in units, and an offset inside `😀` has a position
too. -/
theorem positions_exact_after_emoji :
    byteLength ['a', '\r', '\n', '😀', 'b'] < 2 ^ 32 ∧
      (ofText ['a', '\r', '\n', '😀', 'b']).position ['a', '\r', '\n', '😀', 'b'] 7 = ⟨1, 2⟩ ∧
      (ofText ['a', '\r', '\n', '😀', 'b']).position? ['a', '\r', '\n', '😀', 'b'] 4 =
        some ((ofText ['a', '\r', '\n', '😀', 'b']).position ['a', '\r', '\n', '😀', 'b'] 4) := by
  have hsize : byteLength ['a', '\r', '\n', '😀', 'b'] < 2 ^ 32 := by decide
  have h := positions_exact hsize
  exact ⟨hsize, h.1 ['a', '\r', '\n', '😀'] ['b'] rfl, (h.2.2.2 4).2⟩

end LineIndex

end AnySpans.Text
