import AnySpans.Proofs.Bytes
import AnySpans.Proofs.Components
import AnySpans.Vue.Buffer
import Mathlib.Data.List.Find

/-!
# What a mask shows

A mask is described byte by byte: `Mask.shownByte` tells what shows for the byte at an offset, and
the bytes of the rendered mask are those of the text with each replaced by what shows for it
(`Mask.utf8_render`).
-/

namespace AnySpans.Text

variable {α β : Type}

theorem mapIdx_congr {l : List α} {f g : Nat → α → β}
    (h : ∀ i a, l[i]? = some a → f i a = g i a) : l.mapIdx f = l.mapIdx g := by
  refine List.ext_getElem? fun i => ?_
  rw [List.getElem?_mapIdx, List.getElem?_mapIdx]
  cases ha : l[i]? with
  | none => rfl
  | some a => exact congrArg some (h i a ha)

theorem mapIdx_eq_self {l : List α} {f : Nat → α → α} (h : ∀ i a, l[i]? = some a → f i a = a) :
    l.mapIdx f = l := by
  refine List.ext_getElem? fun i => ?_
  rw [List.getElem?_mapIdx]
  cases ha : l[i]? with
  | none => rfl
  | some a => exact congrArg some (h i a ha)

theorem map_eq_mapIdx (f : α → β) (l : List α) : l.map f = l.mapIdx fun _ a => f a := by
  refine List.ext_getElem? fun i => ?_
  rw [List.getElem?_map, List.getElem?_mapIdx]

end AnySpans.Text

namespace AnySpans.Vue

open AnySpans.Text

/-! ### Bytes of texts -/

section

variable {text pre post : List Char} {c : Char} {b : UInt8} {i j : Nat} {p : Char → Prop}

theorem utf8_append (cs ds : List Char) : utf8 (cs ++ ds) = utf8 cs ++ utf8 ds :=
  List.flatMap_append

theorem utf8_singleton (c : Char) : utf8 [c] = String.utf8EncodeChar c := List.append_nil _

theorem length_utf8 (text : List Char) : (utf8 text).length = byteLength text := by
  induction text with
  | nil => rfl
  | cons c cs ih =>
    show (String.utf8EncodeChar c ++ utf8 cs).length = _
    rw [List.length_append, ih, String.length_utf8EncodeChar, byteLength_cons]

/-- What shows of a character that does not show are as many bytes. -/
theorem utf8_blank (c : Char) : utf8 (blank c) = (String.utf8EncodeChar c).map blankByte := by
  unfold blank
  split
  · rename_i h
    obtain rfl | rfl := h <;> rfl
  · rename_i h
    have hblank : ∀ b ∈ String.utf8EncodeChar c, blankByte b = ' '.toUInt8 := by
      intro b hb
      refine if_neg ?_
      rintro (rfl | rfl)
      · exact h (.inl (eq_of_mem_utf8EncodeChar (by decide) hb))
      · exact h (.inr (eq_of_mem_utf8EncodeChar (by decide) hb))
    have hspaces : ∀ n, utf8 (List.replicate n ' ') = List.replicate n ' '.toUInt8 := by
      intro n
      induction n with
      | zero => rfl
      | succ n ih =>
        rw [List.replicate_succ, List.replicate_succ, ← ih]
        rfl
    rw [hspaces, List.map_congr_left hblank, List.map_const', String.length_utf8EncodeChar]

/-- A character of one byte stands at an offset as its byte. -/
theorem getElem?_utf8_of_standsAt (h : StandsAt text i p) (hp : ∀ c, p c → c.utf8Size = 1) :
    ∃ c, p c ∧ (utf8 text)[i]? = some c.toUInt8 := by
  obtain ⟨pre, c, post, rfl, rfl, hc⟩ := h
  refine ⟨c, hc, ?_⟩
  have hbytes : utf8 (pre ++ c :: post) = utf8 pre ++ c.toUInt8 :: utf8 post := by
    rw [utf8_append]
    show _ ++ (String.utf8EncodeChar c ++ utf8 post) = _
    rw [String.utf8EncodeChar_eq_singleton (hp c hc)]
    rfl
  rw [hbytes, ← length_utf8, List.getElem?_append_right (Nat.le_refl _), Nat.sub_self]
  rfl

/-- The bytes of a longer character are not at the offset of a character of one byte. -/
theorem ne_of_standsAt (h : StandsAt (pre ++ c :: post) i p) (hp : ∀ c, p c → c.utf8Size = 1)
    (hc : c.utf8Size ≠ 1) (hj : j < c.utf8Size) : byteLength pre + j ≠ i := by
  intro hi
  obtain hle | hle := h.boundary.le_or_le
  · exact hc (hp c (h.of_cons (by omega)))
  · omega

/-- A boundary separates all bytes of a character from others or none. -/
theorem Boundary.le_add_iff (h : Boundary (pre ++ c :: post) i) (hj : j < c.utf8Size) :
    i ≤ byteLength pre + j ↔ i ≤ byteLength pre := by
  obtain hle | hle := h.le_or_le <;> omega

theorem mem_span_add_iff {s : Span} (hstart : Boundary (pre ++ c :: post) s.start)
    (hstop : Boundary (pre ++ c :: post) s.stop) (hj : j < c.utf8Size) :
    byteLength pre + j ∈ s ↔ byteLength pre ∈ s := by
  rw [Span.mem_iff, Span.mem_iff, Boundary.le_add_iff hstart hj, ← Nat.not_le, ← Nat.not_le,
    Boundary.le_add_iff hstop hj]

end

/-! ### What shows for a byte -/

/-- What an expression writes for the byte at an offset in its region. -/
def Expression.shownByte (e : Expression) (i : Nat) (b : UInt8) : UInt8 :=
  if i = e.region.start then ';'.toUInt8
  else if i + 1 = e.body.start then '('.toUInt8
  else if i = e.body.stop then ')'.toUInt8
  else if e.terminated ∧ i + 1 = e.region.stop then ';'.toUInt8
  else if i ∈ e.body then
    if e.loopWord = some i then 'i'.toUInt8
    else if e.loopWord.map (· + 1) = some i then 'n'.toUInt8
    else b
  else blankByte b

/-- What script blocks and expressions show for the byte at an offset. -/
def shownByte (scripts : List Span) (es : List Expression) (i : Nat) (b : UInt8) : UInt8 :=
  if scripts.any (i ∈ ·) then b
  else match es.find? (i ∈ ·.region) with
    | some e => e.shownByte i b
    | none => blankByte b

/-! ### What shows by places -/

section

variable {scripts : List Span} {es : List Expression} {s : Span} {d e : Expression} {i : Nat}
  {b : UInt8}

theorem Apart.eq_of_mem (h : Apart es) (hd : d ∈ es) (he : e ∈ es) (hdi : i ∈ d.region)
    (hei : i ∈ e.region) : d = e := by
  induction es with
  | nil => cases hd
  | cons a as ih =>
    obtain ⟨ha, has⟩ := List.pairwise_cons.1 h
    rw [Span.mem_iff] at hdi hei
    obtain rfl | hd' := List.mem_cons.1 hd <;> obtain rfl | he' := List.mem_cons.1 he
    · rfl
    · have := ha e he'
      omega
    · have := ha d hd'
      omega
    · exact ih has hd' he'

theorem Apart.find?_eq (h : Apart es) (he : e ∈ es) (hi : i ∈ e.region) :
    es.find? (i ∈ ·.region) = some e := by
  cases hfound : es.find? (i ∈ ·.region) with
  | none => exact absurd (decide_eq_true hi) (List.find?_eq_none.1 hfound e he)
  | some d =>
    have hdi := List.find?_some hfound
    rw [h.eq_of_mem (List.mem_of_find?_eq_some hfound) he (of_decide_eq_true hdi) hi]

/-- The other expressions are elsewhere. -/
theorem Apart.not_mem_of_mem_eraseIdx (h : Apart es) {n : Nat} (hn : n < es.length)
    (hi : i ∈ es[n].region) : ∀ e ∈ es.eraseIdx n, i ∉ e.region := by
  intro e he hei
  obtain ⟨k, hk, hkn, rfl⟩ := List.mem_eraseIdx_iff_getElem.1 he
  rw [Span.mem_iff] at hi hei
  obtain hlt | hlt := Nat.lt_or_gt_of_ne hkn
  · have := List.pairwise_iff_getElem.1 h k n hk hn hlt
    omega
  · have := List.pairwise_iff_getElem.1 h n k hn hk hlt
    omega

theorem shownByte_of_mem_script (hs : s ∈ scripts) (hi : i ∈ s) : shownByte scripts es i b = b :=
  if_pos (List.any_eq_true.2 ⟨s, hs, decide_eq_true hi⟩)

theorem shownByte_eq_match (hs : ∀ s ∈ scripts, i ∉ s) : shownByte scripts es i b =
    match es.find? (i ∈ ·.region) with
    | some e => e.shownByte i b
    | none => blankByte b := by
  refine if_neg fun hany => ?_
  obtain ⟨s, hmem, hi⟩ := List.any_eq_true.1 hany
  exact hs s hmem (of_decide_eq_true hi)

theorem shownByte_of_mem (hs : ∀ s ∈ scripts, i ∉ s) (ha : Apart es) (he : e ∈ es)
    (hi : i ∈ e.region) : shownByte scripts es i b = e.shownByte i b := by
  rw [shownByte_eq_match hs, ha.find?_eq he hi]

theorem shownByte_of_not_mem (hs : ∀ s ∈ scripts, i ∉ s) (hes : ∀ e ∈ es, i ∉ e.region) :
    shownByte scripts es i b = blankByte b := by
  rw [shownByte_eq_match hs, List.find?_eq_none.2 fun e he hi => hes e he (of_decide_eq_true hi)]

/-- What shows depends on the expressions at the place, not on their order. -/
theorem shownByte_congr {es' : List Expression} (ha : Apart es)
    (hmem : ∀ e, i ∈ e.region → (e ∈ es ↔ e ∈ es')) :
    shownByte scripts es i b = shownByte scripts es' i b := by
  have hfind : es.find? (i ∈ ·.region) = es'.find? (i ∈ ·.region) := by
    cases hfound : es'.find? (i ∈ ·.region) with
    | none =>
      refine List.find?_eq_none.2 fun e he hi => ?_
      exact List.find?_eq_none.1 hfound e ((hmem e (of_decide_eq_true hi)).1 he) hi
    | some e =>
      have hei := List.find?_some hfound
      have hi := of_decide_eq_true hei
      exact ha.find?_eq ((hmem e hi).2 (List.mem_of_find?_eq_some hfound)) hi
  simp only [shownByte, hfind]

end

section

variable {text pre post : List Char} {c : Char} {e : Expression} {i : Nat}

theorem Expression.Stands.body_start (h : e.Stands text) : Boundary text e.body.start := by
  obtain ⟨i, hi, -, hstands⟩ := h.quotes
  rw [hi]
  exact hstands.boundary_succ fun _ => IsDelimiter.utf8Size

theorem Expression.Stands.region_stop (h : e.Stands text) : Boundary text e.region.stop := by
  have hstop := h.stop
  split at hstop
  · rename_i hterminated
    rw [hstop]
    exact (h.ends hterminated).boundary_succ fun _ => IsDelimiter.utf8Size
  · rw [hstop]
    exact h.closes.boundary_succ fun _ => IsDelimiter.utf8Size

/-- The bytes of a longer character are neither delimiters nor in the `of` of a loop. -/
theorem Expression.Stands.not_special (h : e.Stands (pre ++ c :: post)) (hc : c.utf8Size ≠ 1)
    {x j : Nat} (hx : x = byteLength pre + j) (hj : j < c.utf8Size) :
    (x ≠ e.region.start ∧ x + 1 ≠ e.body.start ∧ x ≠ e.body.stop ∧
      ¬ (e.terminated = true ∧ x + 1 = e.region.stop)) ∧
      e.loopWord ≠ some x ∧ e.loopWord.map (· + 1) ≠ some x := by
  subst hx
  have hne : ∀ {i : Nat} {p : Char → Prop}, StandsAt (pre ++ c :: post) i p →
      (∀ c, p c → c.utf8Size = 1) → byteLength pre + j ≠ i := fun hi hp =>
    ne_of_standsAt hi hp hc hj
  have hdelimiter : ∀ c, IsDelimiter c → c.utf8Size = 1 := fun _ => IsDelimiter.utf8Size
  refine ⟨⟨hne h.opens hdelimiter, ?_, hne h.closes hdelimiter, ?_⟩, fun hi => ?_, fun hi => ?_⟩
  · obtain ⟨i, hi, -, hstands⟩ := h.quotes
    have := hne hstands hdelimiter
    omega
  · rintro ⟨hterminated, hstop⟩
    have := hne (h.ends hterminated) hdelimiter
    have hregion := h.stop
    rw [if_pos hterminated] at hregion
    omega
  · exact hne (h.loop _ hi).2.1 (by rintro _ rfl; rfl) rfl
  · obtain ⟨k, hk, hkj⟩ := Option.map_eq_some_iff.1 hi
    exact hne (h.loop k hk).2.2 (by rintro _ rfl; rfl) hkj.symm

/-- What an expression writes for a character is what shows for its bytes. -/
theorem Expression.Stands.utf8_write (h : e.Stands (pre ++ c :: post)) :
    utf8 (e.write (byteLength pre) c) =
      (String.utf8EncodeChar c).mapIdx fun j b => e.shownByte (byteLength pre + j) b := by
  have hblank := utf8_blank c
  by_cases hc : c.utf8Size = 1
  · have hbyte := String.utf8EncodeChar_eq_singleton hc
    rw [hbyte] at hblank ⊢
    simp only [List.mapIdx_singleton, Nat.add_zero]
    unfold Expression.write Expression.shownByte
    split_ifs
    all_goals try rfl
    · rw [utf8_singleton, hbyte]
    · exact hblank
  · have hshown : ∀ j b, (String.utf8EncodeChar c)[j]? = some b →
        e.shownByte (byteLength pre + j) b = if byteLength pre ∈ e.body then b else blankByte b := by
      intro j b hb
      have hj : j < c.utf8Size :=
        String.length_utf8EncodeChar c ▸ (List.getElem?_eq_some_iff.1 hb).1
      obtain ⟨⟨h₁, h₂, h₃, h₄⟩, h₅, h₆⟩ := h.not_special hc rfl hj
      rw [shownByte, if_neg h₁, if_neg h₂, if_neg h₃, if_neg h₄, if_neg h₅, if_neg h₆]
      simp only [mem_span_add_iff h.body_start h.closes.boundary hj]
    obtain ⟨⟨h₁, h₂, h₃, h₄⟩, h₅, h₆⟩ := h.not_special hc (Nat.add_zero _).symm c.utf8Size_pos
    rw [write, if_neg h₁, if_neg h₂, if_neg h₃, if_neg h₄, if_neg h₅, if_neg h₆,
      mapIdx_congr hshown]
    split
    · rw [utf8_singleton]
      exact (mapIdx_eq_self fun _ _ _ => rfl).symm
    · rw [hblank, map_eq_mapIdx]

/-- A byte that holds a delimiter, or the `of` of a loop, is that of a character of one byte. -/
theorem Expression.Stands.delimiter_byte (h : e.Stands text) {b : UInt8}
    (hb : (utf8 text)[i]? = some b) (hi : i = e.region.start ∨ i + 1 = e.body.start ∨
      i = e.body.stop ∨ e.terminated = true ∧ i + 1 = e.region.stop) :
    ∃ c, IsDelimiter c ∧ b = c.toUInt8 := by
  have hstands : StandsAt text i IsDelimiter := by
    obtain rfl | hi | rfl | ⟨hterminated, hi⟩ := hi
    · exact h.opens
    · obtain ⟨q, hq, -, hstands⟩ := h.quotes
      obtain rfl : i = q := by omega
      exact hstands
    · exact h.closes
    · have hstop := h.stop
      rw [if_pos hterminated] at hstop
      obtain rfl : i = e.body.stop + 1 := by omega
      exact h.ends hterminated
  obtain ⟨c, hc, hbyte⟩ := getElem?_utf8_of_standsAt hstands fun _ => IsDelimiter.utf8Size
  exact ⟨c, hc, Option.some.inj (hb.symm.trans hbyte)⟩

theorem Expression.Stands.loop_byte (h : e.Stands text) {b : UInt8}
    (hb : (utf8 text)[i]? = some b) : (e.loopWord = some i → b = 'o'.toUInt8) ∧
      (e.loopWord.map (· + 1) = some i → b = 'f'.toUInt8) := by
  have hbyte : ∀ d : Char, d.utf8Size = 1 → StandsAt text i (· = d) → b = d.toUInt8 := by
    intro d hd hstands
    obtain ⟨c, rfl, hc⟩ := getElem?_utf8_of_standsAt hstands fun c hc => hc ▸ hd
    exact Option.some.inj (hb.symm.trans hc)
  refine ⟨fun hi => hbyte 'o' rfl (h.loop i hi).2.1, fun hi => ?_⟩
  obtain ⟨k, hk, rfl⟩ := Option.map_eq_some_iff.1 hi
  exact hbyte 'f' rfl (h.loop k hk).2.2

/-! ### Line breaks -/

theorem blankByte_blankByte (b : UInt8) : blankByte (blankByte b) = blankByte b := by
  rw [blankByte]
  split
  · rfl
  · rename_i h
    unfold blankByte at h ⊢
    split_ifs at h ⊢ with hb
    · exact absurd hb h
    · rfl

theorem IsDelimiter.blankByte {c : Char} (h : IsDelimiter c) :
    blankByte c.toUInt8 = ' '.toUInt8 := by
  simp only [IsDelimiter, List.mem_cons, List.not_mem_nil, or_false] at h
  rcases h with rfl | rfl | rfl | rfl | rfl | rfl | rfl | rfl | rfl <;> rfl

/-- What an expression writes is blanked as the byte it is written over. -/
theorem Expression.Stands.blankByte_shownByte (h : e.Stands text) {b : UInt8}
    (hb : (utf8 text)[i]? = some b) : blankByte (e.shownByte i b) = blankByte b := by
  have hdelimiter : ∀ d : Char, blankByte d.toUInt8 = ' '.toUInt8 → (i = e.region.start ∨
      i + 1 = e.body.start ∨ i = e.body.stop ∨ e.terminated = true ∧ i + 1 = e.region.stop) →
      blankByte d.toUInt8 = blankByte b := by
    intro d hd hi
    obtain ⟨c, hc, rfl⟩ := h.delimiter_byte hb hi
    exact hd.trans hc.blankByte.symm
  unfold shownByte
  split_ifs with h₁ h₂ h₃ h₄ h₅ h₆ h₇
  · exact hdelimiter ';' rfl (.inl h₁)
  · exact hdelimiter '(' rfl (.inr (.inl h₂))
  · exact hdelimiter ')' rfl (.inr (.inr (.inl h₃)))
  · exact hdelimiter ';' rfl (.inr (.inr (.inr h₄)))
  · rw [(h.loop_byte hb).1 h₆]
    rfl
  · rw [(h.loop_byte hb).2 h₇]
    rfl
  · rfl
  · exact blankByte_blankByte b

end

/-! ### Masks -/

namespace Mask

/-- Scripts and expressions have their places in the text and do not overlap. -/
structure Fits (m : Mask) : Prop where
  scripts : ∀ s ∈ m.scripts, s.start ≤ s.stop ∧ Boundary m.text s.start ∧ Boundary m.text s.stop
  stands : ∀ e ∈ m.expressions, e.Stands m.text
  apart : Apart m.expressions
  clear : ∀ e ∈ m.expressions, ∀ s ∈ m.scripts, e.region.overlaps s = false

theorem fits_ofText (text : List Char) : (ofText text (scriptBlocks text)).Fits where
  scripts _ hs := boundaries_of_mem_scriptBlocks hs
  stands e he := (templateExpressions_apart text).2 e (List.mem_filter.1 he).1
  apart := (templateExpressions_apart text).1.sublist List.filter_sublist
  clear e he s hs := by
    have hclear := (List.mem_filter.1 he).2
    rw [Bool.not_eq_true', List.any_eq_false] at hclear
    exact Bool.eq_false_iff.2 (hclear s hs)

variable {m : Mask}

/-- A mask without some of its expressions. -/
theorem Fits.sublist (h : m.Fits) {es : List Expression} (hes : es.Sublist m.expressions) :
    Fits { m with expressions := es } where
  scripts := h.scripts
  stands e he := h.stands e (hes.mem he)
  apart := h.apart.sublist hes
  clear e he := h.clear e (hes.mem he)

theorem utf8_write (h : m.Fits) {pre post : List Char} {c : Char} (ht : m.text = pre ++ c :: post) :
    utf8 (m.write (byteLength pre) c) = (String.utf8EncodeChar c).mapIdx fun j b =>
      shownByte m.scripts m.expressions (byteLength pre + j) b := by
  have hlt : ∀ {j b}, (String.utf8EncodeChar c)[j]? = some b → j < c.utf8Size := fun hb =>
    String.length_utf8EncodeChar c ▸ (List.getElem?_eq_some_iff.1 hb).1
  -- all bytes of a character are in the same script blocks and in the same expressions
  have hscripts : ∀ {j}, j < c.utf8Size →
      m.scripts.any (byteLength pre + j ∈ ·) = m.scripts.any (byteLength pre ∈ ·) := by
    intro j hj
    rw [Bool.eq_iff_iff]
    simp only [List.any_eq_true, decide_eq_true_eq]
    refine exists_congr fun s => and_congr_right fun hs => ?_
    obtain ⟨-, hstart, hstop⟩ := ht ▸ h.scripts s hs
    exact mem_span_add_iff hstart hstop hj
  have hfind : ∀ {j}, j < c.utf8Size → m.expressions.find? (byteLength pre + j ∈ ·.region) =
      m.expressions.find? (byteLength pre ∈ ·.region) := by
    intro j hj
    refine List.find?_congr fun e he => ?_
    have hstands := ht ▸ h.stands e he
    rw [decide_eq_decide]
    exact mem_span_add_iff hstands.opens.boundary hstands.region_stop hj
  rw [write]
  split
  · rename_i hscript
    rw [utf8_singleton]
    refine (mapIdx_eq_self fun j b hb => ?_).symm
    rw [shownByte, hscripts (hlt hb), if_pos hscript]
  · rename_i hscript
    have hshown : ∀ j b, (String.utf8EncodeChar c)[j]? = some b →
        shownByte m.scripts m.expressions (byteLength pre + j) b =
          match m.expressions.find? (byteLength pre ∈ ·.region) with
          | some e => e.shownByte (byteLength pre + j) b
          | none => blankByte b := fun j b hb => by
      rw [shownByte, hscripts (hlt hb), if_neg hscript, hfind (hlt hb)]
    rw [mapIdx_congr hshown]
    cases hfound : m.expressions.find? (byteLength pre ∈ ·.region) with
    | some e => exact (ht ▸ h.stands e (List.mem_of_find?_eq_some hfound)).utf8_write
    | none =>
      rw [utf8_blank, map_eq_mapIdx]

/-- The bytes of a rendered mask are those of the text with each replaced by what shows for it. -/
theorem utf8_render (h : m.Fits) :
    utf8 m.render = (utf8 m.text).mapIdx (shownByte m.scripts m.expressions) := by
  have hgo : ∀ post pre, m.text = pre ++ post → utf8 (m.renderFrom (byteLength pre) post) =
      (utf8 post).mapIdx fun j b => shownByte m.scripts m.expressions (byteLength pre + j) b := by
    intro post
    induction post with
    | nil => exact fun _ _ => rfl
    | cons c cs ih =>
      intro pre ht
      have ih := ih (pre ++ [c]) (by rw [ht, List.append_assoc]; rfl)
      rw [byteLength_append, byteLength_cons, byteLength_nil, Nat.add_zero] at ih
      have hcons : utf8 (c :: cs) = String.utf8EncodeChar c ++ utf8 cs := rfl
      rw [renderFrom, utf8_append, ih, utf8_write h ht, hcons, List.mapIdx_append]
      congr 1
      refine mapIdx_congr fun j b _ => ?_
      rw [String.length_utf8EncodeChar, Nat.add_assoc, Nat.add_comm j]
  have hall := hgo m.text [] rfl
  simp only [byteLength_nil, Nat.zero_add] at hall
  exact hall

/-- A script block has no byte in common with an expression. -/
theorem Fits.not_mem_script (h : m.Fits) {e : Expression} (he : e ∈ m.expressions) {i : Nat}
    (hi : i ∈ e.region) : ∀ s ∈ m.scripts, i ∉ s := by
  intro s hs his
  have hclear := h.clear e he s hs
  obtain ⟨h₁, h₂⟩ := Span.mem_iff _ |>.1 hi
  obtain ⟨h₃, h₄⟩ := Span.mem_iff _ |>.1 his
  have hoverlap : e.region.overlaps s = true :=
    Bool.and_eq_true_iff.2 ⟨decide_eq_true (by omega), decide_eq_true (by omega)⟩
  rw [hoverlap] at hclear
  cases hclear

theorem Fits.blankByte_shownByte (h : m.Fits) {i : Nat} {b : UInt8}
    (hb : (utf8 m.text)[i]? = some b) :
    blankByte (shownByte m.scripts m.expressions i b) = blankByte b := by
  unfold shownByte
  split
  · rfl
  · split
    · rename_i e hfound
      exact (h.stands e (List.mem_of_find?_eq_some hfound)).blankByte_shownByte hb
    · exact blankByte_blankByte b

/-! ### Giving expressions up -/

/-- The mask without the expressions responsible for errors at some bytes, given up one after
another. -/
def dropAll (m : Mask) (errors : List Nat) : Mask :=
  errors.foldl (fun m byte => (m.dropAt byte).getD m) m

theorem dropAt_eq_some {m' : Mask} {byte : Nat} (h : m.dropAt byte = some m') :
    ∃ i, m.culprit? byte = some i ∧ m' = { m with expressions := m.expressions.eraseIdx i } := by
  unfold dropAt at h
  split at h
  · cases h
  · obtain ⟨i, hi, rfl⟩ := Option.map_eq_some_iff.1 h
    exact ⟨i, hi, rfl⟩

/-- Giving expressions up leaves text and scripts alone. -/
theorem dropAll_eq (m : Mask) (errors : List Nat) : ∃ es : List Expression,
    es.Sublist m.expressions ∧ m.dropAll errors = { m with expressions := es } := by
  induction errors generalizing m with
  | nil => exact ⟨m.expressions, .refl _, rfl⟩
  | cons byte errors ih =>
    rw [dropAll, List.foldl_cons]
    cases hdrop : m.dropAt byte with
    | none => exact ih m
    | some m' =>
      obtain ⟨i, -, rfl⟩ := dropAt_eq_some hdrop
      obtain ⟨es, hes, heq⟩ := ih { m with expressions := m.expressions.eraseIdx i }
      exact ⟨es, hes.trans (m.expressions.eraseIdx_sublist i), heq⟩

end Mask

end AnySpans.Vue
