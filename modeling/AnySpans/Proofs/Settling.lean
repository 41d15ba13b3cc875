import AnySpans.Proofs.Buffers
import AnySpans.Syntax.Parse
import Mathlib

/-!
# Reading a component until it is accepted

The masks that a reader is shown one after another are `Mask.attempts`.  Each has one expression less
than the one before (`attempts_next`), so there are no more of them than expressions and one
(`length_attempts_le`), and the reader's error counts only if it lies in a script or no expression is
left (`parse_component_settles`).
-/

namespace AnySpans.Vue

open AnySpans.Text

variable {α : Type} {read : List Char → Reading α} {m m' : Mask} {byte : Nat}

/-! ### The expression that is given up -/

theorem Mask.dropAt_eq_none_iff : m.dropAt byte = none ↔
    (∃ s ∈ m.scripts, byte ∈ s) ∨ m.expressions = [] := by
  have hculprit : m.culprit? byte = none ↔ m.expressions = [] := by
    refine ⟨fun h => ?_, fun h => by simp [culprit?, h]⟩
    unfold culprit? at h
    split at h
    · cases h
    · split at h
      · exact of_not_not fun hne => by simp [hne] at h
      · cases h
  unfold dropAt
  split
  · rename_i hany
    obtain ⟨s, hs, hbyte⟩ := List.any_eq_true.1 hany
    exact iff_of_true rfl (.inl ⟨s, hs, of_decide_eq_true hbyte⟩)
  · rename_i hany
    rw [Option.map_eq_none_iff, hculprit]
    refine (or_iff_right ?_).symm
    rintro ⟨s, hs, hbyte⟩
    exact hany (List.any_eq_true.2 ⟨s, hs, decide_eq_true hbyte⟩)

/-- The expression that holds the byte of an error is the one that is given up. -/
theorem Mask.exists_of_dropAt (hm : m.Fits) (h : m.dropAt byte = some m') :
    ∃ i < m.expressions.length, m' = { m with expressions := m.expressions.eraseIdx i } ∧
      ∀ e ∈ m.expressions, byte ∈ e.region → m.expressions[i]? = some e := by
  obtain ⟨i, hi, rfl⟩ := dropAt_eq_some h
  have hlt := m.culprit?_lt hi
  refine ⟨i, hlt, rfl, fun e he hbyte => ?_⟩
  have hfind : m.expressions.findIdx? (byte ∈ ·.region) = some i := by
    cases hfound : m.expressions.findIdx? (byte ∈ ·.region) with
    | none =>
      have := List.findIdx?_eq_none_iff.1 hfound e he
      simp [hbyte] at this
    | some j =>
      rw [culprit?, hfound] at hi
      exact hi
  obtain ⟨_, hregion, -⟩ := List.findIdx?_eq_some_iff_getElem.1 hfind
  rw [List.getElem?_eq_getElem hlt]
  exact congrArg some
    (hm.apart.eq_of_mem (List.getElem_mem hlt) he (of_decide_eq_true hregion) hbyte)

/-! ### One mask after another -/

/-- The masks that a reader is shown, one after another, with what it makes of each. -/
def Mask.attempts (read : List Char → Reading α) (m : Mask) : List (Mask × Reading α) :=
  (m, read m.render) ::
    match read m.render with
    | .refused byte =>
      match _h : m.dropAt byte with
      | some m' => attempts read m'
      | none => []
    | _ => []
termination_by m.expressions.length
decreasing_by
  have := m.length_dropAt _h
  omega

/-- Nothing is read again if an error counts. -/
def Mask.Settled (read : List Char → Reading α) (m : Mask) : Prop :=
  ∀ byte, read m.render = .refused byte → m.dropAt byte = none

theorem Mask.attempts_of_settled (h : m.Settled read) : m.attempts read = [(m, read m.render)] := by
  rw [attempts]
  split
  · rename_i byte hread
    split
    · rename_i hdrop
      cases (h byte hread).symm.trans hdrop
    · rfl
  · rfl

theorem Mask.settle_of_settled (h : m.Settled read) : m.settle read = read m.render := by
  rw [settle]
  split
  · rename_i byte hread
    split
    · rename_i hdrop
      cases (h byte hread).symm.trans hdrop
    · exact hread.symm
  · rfl

theorem Mask.attempts_of_dropAt (hread : read m.render = .refused byte) (hdrop : m.dropAt byte = some m') :
    m.attempts read = (m, .refused byte) :: m'.attempts read := by
  rw [attempts, hread]
  simp only [List.cons.injEq, true_and]
  split
  · rename_i h
    cases h.symm.trans hdrop
    rfl
  · rename_i h
    cases h.symm.trans hdrop

theorem Mask.settle_of_dropAt (hread : read m.render = .refused byte) (hdrop : m.dropAt byte = some m') :
    m.settle read = m'.settle read := by
  rw [settle, hread]
  dsimp only
  split
  · rename_i h
    cases h.symm.trans hdrop
    rfl
  · rename_i h
    cases h.symm.trans hdrop

/-- A mask is settled, or the mask with one expression less is read. -/
theorem Mask.settle_induction (read : List Char → Reading α) {P : Mask → Prop}
    (settled : ∀ m, m.Settled read → P m)
    (next : ∀ m byte m', read m.render = .refused byte → m.dropAt byte = some m' → P m' → P m)
    (m : Mask) : P m := by
  by_cases h : m.Settled read
  · exact settled m h
  · simp only [Settled, not_forall] at h
    obtain ⟨byte, hread, hdrop⟩ := h
    obtain ⟨m', hm'⟩ := Option.ne_none_iff_exists'.1 hdrop
    exact next m byte m' hread hm' (settle_induction read settled next m')
termination_by m.expressions.length
decreasing_by
  have := m.length_dropAt hm'
  omega

theorem Mask.length_attempts_le (m : Mask) : (m.attempts read).length ≤ m.expressions.length + 1 := by
  induction m using Mask.settle_induction read with
  | settled m h =>
    rw [attempts_of_settled h]
    exact Nat.succ_le_succ (Nat.zero_le _)
  | next m byte m' hread hdrop ih =>
    have := m.length_dropAt hdrop
    rw [attempts_of_dropAt hread hdrop, List.length_cons]
    omega

theorem Mask.head?_attempts (m : Mask) : (m.attempts read).head? = some (m, read m.render) := by
  rw [attempts]
  rfl

/-- Of the masks that are read, one that is not settled is followed by the one without the expression
that is given up, and the last is settled. -/
theorem Mask.attempts_next (m : Mask) : ∀ (k : Nat) (n : Mask) (r : Reading α),
    (m.attempts read)[k]? = some (n, r) → r = read n.render ∧
      (n.text = m.text ∧ n.scripts = m.scripts ∧ n.expressions.Sublist m.expressions) ∧
      (((m.attempts read)[k + 1]? = none ∧ n.Settled read ∧ m.settle read = r) ∨
        ∃ byte n', r = .refused byte ∧ n.dropAt byte = some n' ∧
          (m.attempts read)[k + 1]? = some (n', read n'.render)) := by
  induction m using Mask.settle_induction read with
  | settled m h =>
    intro k n r hk
    rw [attempts_of_settled h] at hk ⊢
    cases k with
    | zero =>
      cases hk
      exact ⟨rfl, ⟨rfl, rfl, .refl _⟩, .inl ⟨rfl, h, settle_of_settled h⟩⟩
    | succ k => cases hk
  | next m byte m' hread hdrop ih =>
    intro k n r hk
    rw [attempts_of_dropAt hread hdrop] at hk ⊢
    rw [settle_of_dropAt hread hdrop]
    cases k with
    | zero =>
      cases hk
      refine ⟨hread.symm, ⟨rfl, rfl, .refl _⟩, .inr ⟨byte, m', rfl, hdrop, ?_⟩⟩
      rw [List.getElem?_cons_succ, ← List.head?_eq_getElem?, head?_attempts]
    | succ k =>
      obtain ⟨hr, ⟨htext, hscripts, hsublist⟩, hnext⟩ := ih k n r hk
      obtain ⟨i, -, rfl⟩ := dropAt_eq_some hdrop
      exact ⟨hr, ⟨htext, hscripts, hsublist.trans (m.expressions.eraseIdx_sublist i)⟩, hnext⟩

/-! ### Errors that count -/

/-- The errors of a reader, each with what it was shown. -/
def reports {β : Type} (calls : List (β × Reading α)) : List (β × Nat) :=
  calls.filterMap fun c =>
    match c.2 with
    | .refused byte => some (c.1, byte)
    | _ => none

/-- A component is refused for the last error, if it counts. -/
theorem Mask.settle_eq_refused_iff (m : Mask) : m.settle read = .refused byte ↔
    ∃ n, (reports (m.attempts read)).getLast? = some (n, byte) ∧ n.dropAt byte = none := by
  induction m using Mask.settle_induction read with
  | settled m h =>
    rw [attempts_of_settled h, settle_of_settled h]
    cases hread : read m.render with
    | refused b =>
      have hnone := h b hread
      simp only [reports, List.filterMap_cons, List.filterMap_nil, List.getLast?_singleton,
        Option.some_inj, Reading.refused.injEq, Prod.mk.injEq]
      exact ⟨fun hb => ⟨m, ⟨rfl, hb⟩, hb ▸ hnone⟩, fun ⟨_, ⟨_, hb⟩, _⟩ => hb⟩
    | _ => simp [reports]
  | next m b m' hread hdrop ih =>
    have hcons : reports (m.attempts read) = (m, b) :: reports (m'.attempts read) := by
      rw [attempts_of_dropAt hread hdrop]
      rfl
    rw [settle_of_dropAt hread hdrop, ih, hcons, List.getLast?_cons]
    refine exists_congr fun n => and_congr_left fun hnone => ?_
    cases hlast : (reports (m'.attempts read)).getLast? with
    | some p => rfl
    | none =>
      refine iff_of_false (by simp) fun h => ?_
      cases h
      cases hnone.symm.trans hdrop

end AnySpans.Vue

namespace AnySpans.Syntax

open AnySpans.Text AnySpans.Vue

/-- What a reading of a component comes to. -/
def outcome (text : List Char) : Reading Concrete → Except SyntaxError Tree
  | .accepted t => .ok (lower text t)
  | .refused byte => .error (.malformed ((LineIndex.ofText text).position text byte))
  | .aborted => .error .aborted

theorem parse_component (readers : Readers) {text : List Char} (h : scriptBlocks text ≠ []) :
    readers.parse .vue text =
      outcome text ((Mask.ofText text (scriptBlocks text)).settle readers.plain) := by
  obtain ⟨s, ss, hs⟩ := List.exists_cons_of_ne_nil h
  rw [Readers.parse, hs]
  rfl

theorem parse_eq_noScript_iff (readers : Readers) (text : List Char) :
    readers.parse .vue text = .error .noScript ↔ scriptBlocks text = [] := by
  refine ⟨fun h => of_not_not fun hne => ?_, fun h => by rw [Readers.parse, h]⟩
  rw [parse_component readers hne] at h
  unfold outcome at h
  split at h <;> cases h

/-- One expression is given up for an error at a byte in no script: the one that holds the byte, if
there is such a one. -/
structure GivesUp (b : Buffer) (byte : Nat) (b' : Buffer) : Prop where
  outside : ∀ s ∈ b.scripts, byte ∉ s
  dropAt : b.dropAt? byte = some (true, b')
  one : ∃ i < b.expressions.length, b'.expressions = b.expressions.eraseIdx i ∧
    ∀ e ∈ b.expressions, byte ∈ e.region → b.expressions[i]? = some e

theorem givesUp_ofMask {m m' : Mask} {byte : Nat} (hm : m.Fits) (h : m.dropAt byte = some m') :
    GivesUp (.ofMask m) byte (.ofMask m') where
  outside s hs hbyte := by
    rw [Mask.dropAt_eq_none_iff.2 (.inl ⟨s, hs, hbyte⟩)] at h
    cases h
  dropAt := by rw [Buffer.dropAt?_ofMask hm, h]
  one := by
    obtain ⟨i, hi, rfl, hregion⟩ := Mask.exists_of_dropAt hm h
    exact ⟨i, hi, rfl, hregion⟩

theorem reports_map {α β γ : Type} (f : β → γ) (calls : List (β × Reading α)) :
    reports (calls.map fun c => (f c.1, c.2)) = (reports calls).map fun c => (f c.1, c.2) := by
  induction calls with
  | nil => rfl
  | cons c calls ih =>
    obtain ⟨b, r⟩ := c
    cases r <;> simp_all [reports]

/-- Whatever a parser makes of bytes, a component with scripts is read at most once for each of its
expressions outside of the scripts and once more.  Every time all scripts show; one expression less
than before does, and if the parser's error is at a byte of an expression it is this one that is given
up.  The component is refused for the parser's last error if that lies in a script or there was no
expression left. -/
theorem parse_component_settles (parser : List UInt8 → Reading Concrete) (markup : List Char → Reading Concrete)
    {text : List Char} (h : scriptBlocks text ≠ []) :
    ∃ calls : List (Buffer × Reading Concrete),
      (∃ b, Buffer.ofText? text (scriptBlocks text) = some b ∧
        calls.head? = some (b, parser b.bytes) ∧ calls.length ≤ b.expressions.length + 1 ∧
        b.expressions = (templateExpressions text).filter fun e =>
          !(scriptBlocks text).any e.region.overlaps) ∧
      (∀ (k : Nat) (b : Buffer) (r : Reading Concrete), calls[k]? = some (b, r) →
        r = parser b.bytes ∧ b.scripts = scriptBlocks text ∧ b.Shows text ∧
        ((calls[k + 1]? = none ∧
            (∀ byte, r = .refused byte → (∃ s ∈ b.scripts, byte ∈ s) ∨ b.expressions = []) ∧
            Readers.parse ⟨parser ∘ utf8, markup⟩ .vue text = outcome text r) ∨
          ∃ byte b', r = .refused byte ∧ GivesUp b byte b' ∧
            calls[k + 1]? = some (b', parser b'.bytes))) ∧
      ∀ p, Readers.parse ⟨parser ∘ utf8, markup⟩ .vue text = .error (.malformed p) ↔
        ∃ b byte, (reports calls).getLast? = some (b, byte) ∧
          ((∃ s ∈ b.scripts, byte ∈ s) ∨ b.expressions = []) ∧
          p = (LineIndex.ofText text).position text byte := by
  have hparse := parse_component ⟨parser ∘ utf8, markup⟩ h
  have hfits := Mask.fits_ofText text
  generalize hm : Mask.ofText text (scriptBlocks text) = m at hparse hfits
  refine ⟨(m.attempts (parser ∘ utf8)).map fun c => (.ofMask c.1, c.2),
    ⟨.ofMask m, hm ▸ Buffer.ofText?_eq (hm ▸ hfits), ?_, ?_, hm ▸ rfl⟩, fun k b r hk => ?_, fun p => ?_⟩
  · rw [List.head?_map, m.head?_attempts]
    rfl
  · rw [List.length_map]
    exact m.length_attempts_le
  · rw [List.getElem?_map] at hk ⊢
    obtain ⟨⟨n, r'⟩, hn, heq⟩ := Option.map_eq_some_iff.1 hk
    cases heq
    obtain ⟨hr, ⟨htext, hscripts, hsublist⟩, hnext⟩ := m.attempts_next k n r' hn
    have hnfits : n.Fits := by
      have := hfits.sublist hsublist
      rwa [← htext, ← hscripts] at this
    refine ⟨hr, by rw [show (Buffer.ofMask n).scripts = n.scripts from rfl, hscripts, ← hm]; rfl, ?_, ?_⟩
    · have := Buffer.shows_ofMask hnfits
      rwa [htext, ← hm] at this
    · obtain ⟨hlast, hsettled, hsettle⟩ | ⟨byte, n', rfl, hdrop, hafter⟩ := hnext
      · refine .inl ⟨by rw [hlast]; rfl, fun byte hbyte => ?_, by rw [hparse, hsettle]⟩
        exact Mask.dropAt_eq_none_iff.1 (hsettled byte (hr ▸ hbyte))
      · exact .inr ⟨byte, .ofMask n', rfl, givesUp_ofMask hnfits hdrop, by rw [hafter]; rfl⟩
  · rw [hparse, reports_map, List.getLast?_map]
    constructor
    · intro hrefused
      cases hsettle : m.settle (parser ∘ utf8) with
      | refused byte =>
        rw [hsettle] at hrefused
        cases hrefused
        obtain ⟨n, hn, hnone⟩ := m.settle_eq_refused_iff.1 hsettle
        exact ⟨_, byte, by rw [hn]; rfl, Mask.dropAt_eq_none_iff.1 hnone, rfl⟩
      | _ =>
        rw [hsettle] at hrefused
        cases hrefused
    · rintro ⟨b, byte, hlast, hends, rfl⟩
      obtain ⟨⟨n, byte'⟩, hn, heq⟩ := Option.map_eq_some_iff.1 hlast
      cases heq
      rw [m.settle_eq_refused_iff.2 ⟨n, hn, Mask.dropAt_eq_none_iff.2 hends⟩]
      rfl

/-- A component with an expression, a directive and a script. -/
def greeting : List Char :=
  "<template><p :a='b'>\x7b\x7b c \x7d\x7d</p></template>\n<script lang='ts'>é</script>".toList

/-- A parser that takes neither the expression `c` nor the script. -/
def refusing (bytes : List UInt8) : Reading Concrete :=
  if bytes[23]? = some 'c'.toUInt8 then .refused 23 else .refused 61

/-- The expression is given up for the first error; then the component is refused for the second one,
which lies in the script. -/
theorem parse_component_settles_greeting : scriptBlocks greeting ≠ [] ∧
    ∃ b b', Buffer.ofText? greeting (scriptBlocks greeting) = some b ∧ b.expressions.length = 2 ∧
      GivesUp b 23 b' ∧ b'.expressions.length = 1 ∧
      Readers.parse ⟨refusing ∘ utf8, fun _ => .aborted⟩ .vue greeting =
        .error (.malformed ⟨1, 18⟩) := by
  have hne : scriptBlocks greeting ≠ [] := by decide +kernel
  have hscripts : scriptBlocks greeting = [⟨61, 63⟩] := by decide +kernel
  -- what stands at the byte of the first error before and after it, and how many expressions do
  have hshown : (Buffer.ofText? greeting (scriptBlocks greeting)).bind (fun b =>
      (b.dropAt? 23).map fun r => ((b.bytes[23]?, b.expressions.length),
        (r.2.bytes[23]?, r.2.expressions.length))) =
      some ((some 'c'.toUInt8, 2), (some ' '.toUInt8, 1)) := by cbv
  obtain ⟨calls, ⟨b, hb, hhead, -⟩, hcalls, -⟩ :=
    parse_component_settles refusing (fun _ => .aborted) hne
  rw [hb, Option.bind_some, Option.map_eq_some_iff] at hshown
  obtain ⟨r, hr, heq⟩ := hshown
  simp only [Prod.mk.injEq] at heq
  obtain ⟨⟨hc, htwo⟩, hblank, hone⟩ := heq
  have hfirst : refusing b.bytes = .refused 23 := if_pos hc
  rw [hfirst] at hhead
  obtain ⟨-, hb_scripts, -, ⟨-, hends, -⟩ | ⟨byte, b', hread, hdrop, hnext⟩⟩ :=
    hcalls 0 b _ (List.head?_eq_getElem? ▸ hhead)
  · -- an expression is left, and the byte lies in no script
    obtain ⟨s, hs, hbyte⟩ | hnone := hends 23 rfl
    · rw [hb_scripts, hscripts, List.mem_singleton] at hs
      exact absurd (hs ▸ hbyte) (by decide)
    · rw [hnone] at htwo
      cases htwo
  · cases hread
    obtain rfl := Option.some.inj (hdrop.dropAt.symm.trans hr)
    have hsecond : refusing b'.bytes = .refused 61 := if_neg (by rw [hblank]; decide)
    rw [hsecond] at hnext
    refine ⟨hne, b, b', hb, htwo, hdrop, hone, ?_⟩
    obtain ⟨-, hb_scripts', -, ⟨-, -, hparse⟩ | ⟨byte, b'', hread, hdrop', -⟩⟩ := hcalls 1 b' _ hnext
    · rw [hparse]
      decide +kernel
    · cases hread
      refine absurd ?_ (hdrop'.outside ⟨61, 63⟩ ?_)
      · decide
      · rw [hb_scripts', hscripts]
        exact List.mem_singleton_self _

end AnySpans.Syntax
