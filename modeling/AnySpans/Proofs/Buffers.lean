import AnySpans.Proofs.Masks
import Mathlib.Data.List.Induction

/-!
# Masks in buffers

Writing a mask in place never reaches outside of its buffer, and neither does giving expressions up;
and at any time the buffer holds the bytes of the mask (`Buffer.ofText?_eq`,
`Buffer.dropAt?_ofMask`).  So what is true of a mask byte by byte is true of the buffer
(`Buffer.shows_ofMask`).
-/

namespace AnySpans.Vue

open AnySpans.Text

/-! ### Access to bytes -/

section

variable {bytes source : List UInt8} {s : Span} {i : Nat} {x y : UInt8}
  {f : Nat → UInt8 → UInt8}

theorem slice?_of_le (h : s.start ≤ s.stop) (h' : s.stop ≤ bytes.length) :
    slice? bytes s = some ((bytes.drop s.start).take (s.stop - s.start)) := if_pos ⟨h, h'⟩

theorem length_slice (h' : s.stop ≤ bytes.length) :
    ((bytes.drop s.start).take (s.stop - s.start)).length = s.stop - s.start := by
  rw [List.length_take, List.length_drop]
  omega

theorem getElem?_slice {j : Nat} (hj : j ∈ s) :
    ((bytes.drop s.start).take (s.stop - s.start))[j - s.start]? = bytes[j]? := by
  obtain ⟨h₁, h₂⟩ := s.mem_iff.1 hj
  rw [List.getElem?_take_of_lt (by omega), List.getElem?_drop, Nat.add_sub_cancel' h₁]

/-- A span whose bytes stay as they are. -/
theorem slice?_mapIdx (h : s.start ≤ s.stop) (h' : s.stop ≤ source.length)
    (hf : ∀ i b, i ∈ s → f i b = b) : slice? (source.mapIdx f) s = slice? source s := by
  rw [slice?_of_le h h', slice?_of_le h (by rwa [List.length_mapIdx])]
  refine congrArg some (List.ext_getElem? fun j => ?_)
  by_cases hj : j < s.stop - s.start
  · rw [List.getElem?_take_of_lt hj, List.getElem?_take_of_lt hj, List.getElem?_drop,
      List.getElem?_drop, List.getElem?_mapIdx]
    cases source[s.start + j]? with
    | none => rfl
    | some b => exact congrArg some (hf _ b (s.mem_iff.2 (by omega)))
  · rw [List.getElem?_take_eq_none (by omega), List.getElem?_take_eq_none (by omega)]

/-- Writing over a span changes its bytes only. -/
theorem exists_overwrite? (bytes new : List UInt8) {s : Span} (h : s.start ≤ s.stop)
    (h' : s.stop ≤ bytes.length) (hn : new.length = s.stop - s.start) : ∃ bytes',
      overwrite? bytes s new = some bytes' ∧
      ∀ j, bytes'[j]? = if j ∈ s then new[j - s.start]? else bytes[j]? := by
  refine ⟨bytes.take s.start ++ new ++ bytes.drop s.stop, ?_, fun j => ?_⟩
  · rw [overwrite?, slice?_of_le h h']
    exact if_pos ((length_slice h').trans hn.symm)
  · have htake : (bytes.take s.start).length = s.start := by
      rw [List.length_take]
      omega
    split
    · rename_i hj
      obtain ⟨h₁, h₂⟩ := s.mem_iff.1 hj
      rw [List.getElem?_append_left (by rw [List.length_append]; omega),
        List.getElem?_append_right (by omega), htake]
    · rename_i hj
      rw [Span.mem_iff] at hj
      by_cases hlt : j < s.start
      · rw [List.append_assoc, List.getElem?_append_left (by omega),
          List.getElem?_take_of_lt hlt]
      · rw [List.getElem?_append_right (by rw [List.length_append]; omega), List.length_append,
          List.getElem?_drop]
        congr 1
        omega

theorem copy?_mapIdx (h : s.start ≤ s.stop) (h' : s.stop ≤ source.length) :
    copy? source (source.mapIdx f) s =
      some (source.mapIdx fun j b => if j ∈ s then b else f j b) := by
  obtain ⟨bytes', hwrite, hget⟩ := exists_overwrite? (source.mapIdx f) _ h
    (by rwa [List.length_mapIdx]) (length_slice h')
  rw [copy?, slice?_of_le h h', Option.bind_eq_bind, Option.bind_some, hwrite]
  refine congrArg some (List.ext_getElem? fun j => ?_)
  rw [hget, List.getElem?_mapIdx, List.getElem?_mapIdx]
  split
  · rename_i hj
    rw [getElem?_slice hj]
    exact Option.map_id'.symm
  · rfl

theorem put?_mapIdx (h : i < source.length) : put? (source.mapIdx f) i x =
    some (source.mapIdx fun j b => if j = i then x else f j b) := by
  rw [put?, if_pos (by rwa [List.length_mapIdx])]
  refine congrArg some (List.ext_getElem? fun j => ?_)
  rw [List.getElem?_set, List.getElem?_mapIdx, List.getElem?_mapIdx, List.length_mapIdx]
  by_cases hj : j = i
  · subst hj
    simp [h]
  · simp [hj, Ne.symm hj]

theorem putBefore?_mapIdx (h : 0 < i) (h' : i ≤ source.length) : putBefore? (source.mapIdx f) i x =
    some (source.mapIdx fun j b => if j + 1 = i then x else f j b) := by
  cases i with
  | zero => cases h
  | succ i =>
    rw [putBefore?, put?_mapIdx h']
    simp only [Nat.add_right_cancel_iff]

/-- Two bytes are written one after the other. -/
theorem overwrite?_pair (h : i + 2 ≤ source.length) :
    overwrite? (source.mapIdx f) ⟨i, i + 2⟩ [x, y] =
      some (source.mapIdx fun j b => if j = i then x else if j = i + 1 then y else f j b) := by
  obtain ⟨bytes', hwrite, hget⟩ := exists_overwrite? (source.mapIdx f) [x, y] (s := ⟨i, i + 2⟩)
    (Nat.le_add_right i 2) (by rwa [List.length_mapIdx]) (by simp)
  rw [hwrite]
  refine congrArg some (List.ext_getElem? fun j => ?_)
  rw [hget, List.getElem?_mapIdx, List.getElem?_mapIdx]
  split
  · rename_i hj
    obtain ⟨h₁, h₂⟩ := Span.mem_iff _ |>.1 hj
    dsimp only at h₁ h₂
    have hlt : j < source.length := by omega
    rw [List.getElem?_eq_getElem hlt]
    obtain rfl | rfl : j = i ∨ j = i + 1 := by omega
    · simp
    · simp
  · rename_i hj
    rw [Span.mem_iff] at hj
    dsimp only at hj
    have h₁ : j ≠ i := by omega
    have h₂ : j ≠ i + 1 := by omega
    simp only [if_neg h₁, if_neg h₂]

/-- Bytes that are blanked. -/
theorem blank_mapIdx (h : s.start ≤ s.stop) (h' : s.stop ≤ source.length) : ∃ old,
    slice? (source.mapIdx f) s = some old ∧
      overwrite? (source.mapIdx f) s (old.map blankByte) =
        some (source.mapIdx fun j b => if j ∈ s then blankByte (f j b) else f j b) := by
  have hlength : s.stop ≤ (source.mapIdx f).length := by rwa [List.length_mapIdx]
  refine ⟨_, slice?_of_le h hlength, ?_⟩
  obtain ⟨bytes', hwrite, hget⟩ := exists_overwrite? _ _ h hlength
    ((List.length_map blankByte).trans (length_slice hlength))
  rw [hwrite]
  refine congrArg some (List.ext_getElem? fun j => ?_)
  rw [hget, List.getElem?_mapIdx]
  split
  · rename_i hj
    rw [List.getElem?_map, getElem?_slice hj, List.getElem?_mapIdx, List.getElem?_mapIdx,
      Option.map_map]
    simp only [if_pos hj, Function.comp_def]
  · rename_i hj
    rw [List.getElem?_mapIdx]
    simp only [if_neg hj]

end

/-! ### Writing expressions -/

section

variable {text : List Char} {source : List UInt8} {e : Expression} {f : Nat → UInt8 → UInt8}

theorem Expression.terminate?_mapIdx (h : 0 < e.region.stop) (h' : e.region.stop ≤ source.length) :
    e.terminate? (source.mapIdx f) = some (source.mapIdx fun i b =>
      if e.terminated ∧ i + 1 = e.region.stop then ';'.toUInt8 else f i b) := by
  rw [terminate?]
  cases hterminated : e.terminated with
  | false => simp
  | true => simp [putBefore?_mapIdx h h']

theorem Expression.rewriteLoop?_mapIdx (h : ∀ i, e.loopWord = some i → i + 2 ≤ source.length) :
    e.rewriteLoop? (source.mapIdx f) = some (source.mapIdx fun i b =>
      if e.loopWord = some i then 'i'.toUInt8
      else if e.loopWord.map (· + 1) = some i then 'n'.toUInt8
      else f i b) := by
  rw [rewriteLoop?]
  cases hword : e.loopWord with
  | none => simp
  | some k =>
    dsimp only
    rw [overwrite?_pair (h k hword)]
    simp only [Option.some.injEq, Option.map_some, eq_comm]

/-- The bytes that are written one after another do not get in each other's way. -/
theorem Expression.Stands.written_eq (h : e.Stands text) {i : Nat} {b x : UInt8}
    (hx : i ∈ e.region → x = blankByte b) :
    (if e.loopWord = some i then 'i'.toUInt8
      else if e.loopWord.map (· + 1) = some i then 'n'.toUInt8
      else if e.terminated ∧ i + 1 = e.region.stop then ';'.toUInt8
      else if i = e.body.stop then ')'.toUInt8
      else if i + 1 = e.body.start then '('.toUInt8
      else if i = e.region.start then ';'.toUInt8
      else if i ∈ e.body then b else x) = if i ∈ e.region then e.shownByte i b else x := by
  obtain ⟨q, hq, hlt, -⟩ := h.quotes
  have hordered := h.ordered
  have hstop := h.stop_bounds
  have hbody : i ∈ e.body ↔ e.body.start ≤ i ∧ i < e.body.stop := Span.mem_iff _
  have hmem : i ∈ e.region ↔ e.region.start ≤ i ∧ i < e.region.stop := Span.mem_iff _
  -- the `of` of a loop is in the body, and the body is between the delimiters
  have hword : ∀ k, e.loopWord = some k → i = k ∨ i = k + 1 → i ∈ e.body := by
    intro k hk hi
    have := (h.loop k hk).1
    exact hbody.2 (by omega)
  by_cases hin : i ∈ e.body
  · obtain ⟨hregion, h₁, h₂, h₃, h₄⟩ := h.mem_body hin
    simp only [shownByte, if_pos hregion, if_neg h₁, if_neg h₂, if_neg h₃, if_neg h₄, if_pos hin]
  · have h₁ : e.loopWord ≠ some i := fun hi => hin (hword i hi (.inl rfl))
    have h₂ : e.loopWord.map (· + 1) ≠ some i := fun hi => by
      obtain ⟨k, hk, hki⟩ := Option.map_eq_some_iff.1 hi
      exact hin (hword k hk (.inr hki.symm))
    rw [if_neg h₁, if_neg h₂, shownByte, if_neg hin, if_neg hin]
    by_cases hregion : i ∈ e.region
    · rw [if_pos hregion, hx hregion]
      by_cases hlast : e.terminated = true ∧ i + 1 = e.region.stop
      · have hregion := h.stop
        rw [if_pos hlast.1] at hregion
        have h₃ : i ≠ e.region.start := by omega
        have h₄ : i + 1 ≠ e.body.start := by omega
        have h₅ : i ≠ e.body.stop := by omega
        rw [if_pos hlast, if_neg h₃, if_neg h₄, if_neg h₅, if_pos hlast]
      · rw [if_neg hlast, if_neg hlast]
        split_ifs <;> first | rfl | omega
    · rw [if_neg hregion]
      rw [hmem] at hregion
      split_ifs <;> first | rfl | omega

/-- An expression is written over blanks, and nothing else is. -/
theorem Expression.Stands.writeTo?_mapIdx (h : e.Stands text)
    (hf : ∀ i b, i ∈ e.region → f i b = blankByte b) :
    e.writeTo? (utf8 text) ((utf8 text).mapIdx f) = some ((utf8 text).mapIdx fun i b =>
      if i ∈ e.region then e.shownByte i b else f i b) := by
  obtain ⟨q, hq, hlt, -⟩ := h.quotes
  have hordered := h.ordered
  have hopens := h.opens.lt
  have hcloses := h.closes.lt
  have hregion := h.region_stop.le
  have hstop := h.stop_bounds
  have hloop : ∀ i, e.loopWord = some i → i + 2 ≤ (utf8 text).length := by
    intro i hi
    have := (h.loop i hi).1
    rw [length_utf8]
    omega
  rw [← length_utf8] at hopens hcloses hregion
  rw [writeTo?, copy?_mapIdx hordered (by omega), Option.bind_eq_bind, Option.bind_some,
    put?_mapIdx hopens, Option.bind_some, putBefore?_mapIdx (by omega) (by omega), Option.bind_some,
    put?_mapIdx hcloses, Option.bind_some, terminate?_mapIdx (by omega) hregion, Option.bind_some,
    rewriteLoop?_mapIdx hloop]
  exact congrArg some (mapIdx_congr fun i b _ => h.written_eq (hf i b))

end

/-! ### Buffers of masks -/

namespace Buffer

/-- The buffer that holds a mask. -/
def ofMask (m : Mask) : Buffer := ⟨utf8 m.render, m.scripts, m.expressions⟩

theorem foldlM_copy? {source : List UInt8} (rest done : List Span)
    (h : ∀ s ∈ rest, s.start ≤ s.stop ∧ s.stop ≤ source.length) :
    rest.foldlM (copy? source) (source.mapIdx (shownByte done [])) =
      some (source.mapIdx (shownByte (done ++ rest) [])) := by
  induction rest generalizing done with
  | nil => rw [List.append_nil]; rfl
  | cons s ss ih =>
    obtain ⟨hle, hlength⟩ := h s List.mem_cons_self
    have hone : (source.mapIdx fun i b => if i ∈ s then b else shownByte done [] i b) =
        source.mapIdx (shownByte (done ++ [s]) []) := by
      refine mapIdx_congr fun i b _ => ?_
      split
      · exact (shownByte_of_mem_script (List.mem_append_right _ (List.mem_singleton_self s)) ‹_›).symm
      · rename_i hi
        simp only [shownByte, List.any_append, List.any_cons, List.any_nil, decide_eq_false hi,
          Bool.or_false]
    rw [List.foldlM_cons, copy?_mapIdx hle hlength, hone, Option.bind_eq_bind, Option.bind_some,
      ih _ fun s' hs' => h s' (List.mem_cons_of_mem s hs'), List.append_assoc]
    rfl

theorem foldlM_writeTo? {text : List Char} {scripts : List Span} (rest done : List Expression)
    (hstands : ∀ e ∈ rest, e.Stands text) (hapart : Apart (done ++ rest))
    (hclear : ∀ e ∈ rest, ∀ i ∈ e.region, ∀ s ∈ scripts, i ∉ s) :
    rest.foldlM (fun bytes e => e.writeTo? (utf8 text) bytes)
        ((utf8 text).mapIdx (shownByte scripts done)) =
      some ((utf8 text).mapIdx (shownByte scripts (done ++ rest))) := by
  induction rest generalizing done with
  | nil => rw [List.append_nil]; rfl
  | cons e es ih =>
    have hassoc : done ++ e :: es = (done ++ [e]) ++ es := by rw [List.append_assoc]; rfl
    have hdone : Apart (done ++ [e]) := (hassoc ▸ hapart).sublist (List.sublist_append_left _ _)
    have hnot : ∀ i ∈ e.region, ∀ d ∈ done, i ∉ d.region := by
      intro i hi d hd hid
      have := (List.pairwise_append.1 hdone).2.2 d hd e (List.mem_singleton_self e)
      rw [Span.mem_iff] at hi hid
      omega
    have hone : ((utf8 text).mapIdx fun i b =>
        if i ∈ e.region then e.shownByte i b else shownByte scripts done i b) =
        (utf8 text).mapIdx (shownByte scripts (done ++ [e])) := by
      refine mapIdx_congr fun i b _ => ?_
      split
      · rename_i hi
        exact (shownByte_of_mem (hclear e List.mem_cons_self i hi) hdone
          (List.mem_append_right _ (List.mem_singleton_self e)) hi).symm
      · rename_i hi
        have hfind : (done ++ [e]).find? (i ∈ ·.region) = done.find? (i ∈ ·.region) := by
          rw [List.find?_append, List.find?_cons_of_neg (by simpa using hi), List.find?_nil,
            Option.or_none]
        simp only [shownByte, hfind]
    rw [List.foldlM_cons, (hstands e List.mem_cons_self).writeTo?_mapIdx fun i b hi =>
      shownByte_of_not_mem (hclear e List.mem_cons_self i hi) (hnot i hi), hone,
      Option.bind_eq_bind, Option.bind_some, hassoc]
    exact ih _ (fun d hd => hstands d (List.mem_cons_of_mem e hd)) (hassoc ▸ hapart)
      fun d hd => hclear d (List.mem_cons_of_mem e hd)

/-- A mask can be written in place. -/
theorem ofText?_eq {text : List Char} {scripts : List Span} (h : (Mask.ofText text scripts).Fits) :
    ofText? text scripts = some (ofMask (Mask.ofText text scripts)) := by
  have hscripts : scripts.foldlM (copy? (utf8 text)) ((utf8 text).map blankByte) =
      some ((utf8 text).mapIdx (shownByte scripts [])) := by
    have hblank : (utf8 text).map blankByte = (utf8 text).mapIdx (shownByte [] []) :=
      map_eq_mapIdx _ _
    rw [hblank]
    refine foldlM_copy? scripts [] fun s hs => ?_
    obtain ⟨hle, -, hstop⟩ := h.scripts s hs
    exact ⟨hle, length_utf8 text ▸ hstop.le⟩
  have hexpressions : (Mask.ofText text scripts).expressions.foldlM
      (fun bytes e => e.writeTo? (utf8 text) bytes) ((utf8 text).mapIdx (shownByte scripts [])) =
      some ((utf8 text).mapIdx (shownByte scripts (Mask.ofText text scripts).expressions)) :=
    foldlM_writeTo? _ [] h.stands h.apart fun e he i hi => h.not_mem_script he hi
  rw [ofText?, hscripts, ofMask, Mask.utf8_render h]
  show Option.bind (List.foldlM (fun bytes (e : Expression) => e.writeTo? (utf8 text) bytes) _
    (Mask.ofText text scripts).expressions) _ = _
  rw [hexpressions]
  rfl

/-! ### Giving expressions up -/

/-- In a list in order, those that begin up to a byte come first. -/
theorem findIdx?_reverse {es : List Expression} {byte : Nat}
    (h : es.Pairwise fun a b => a.region.start ≤ b.region.start) :
    es.reverse.findIdx? (·.region.start ≤ byte) =
      match (es.filter fun e => e.region.start ≤ byte).length with
      | 0 => none
      | n + 1 => some (es.length - 1 - n) := by
  induction es using List.reverseRecOn with
  | nil => rfl
  | append_singleton es e ih =>
    obtain ⟨hes, -, hle⟩ := List.pairwise_append.1 h
    have ih := ih hes
    rw [List.reverse_append, List.reverse_singleton, List.singleton_append, List.findIdx?_cons,
      List.filter_append]
    by_cases he : e.region.start ≤ byte
    · have hall : es.filter (fun e => e.region.start ≤ byte) = es :=
        List.filter_eq_self.2 fun d hd => decide_eq_true
          (Nat.le_trans (hle d hd e (List.mem_singleton_self e)) he)
      simp [hall, he]
    · have hlength := List.length_filter_le (fun e => decide (e.region.start ≤ byte)) es
      rw [if_neg (by simpa using he), ih, List.filter_cons_of_neg (by simpa using he),
        List.filter_nil, List.append_nil, List.length_append, List.length_singleton]
      split
      · rfl
      · rename_i n hn
        rw [hn] at hlength
        refine congrArg some ?_
        show es.length - 1 - n + 1 = es.length + 1 - 1 - n
        omega

/-- The same expression is responsible. -/
theorem culprit?_ofMask {m : Mask} (h : m.Fits) (byte : Nat) :
    (ofMask m).culprit? byte = m.culprit? byte := by
  have hsorted : m.expressions.Pairwise fun a b => a.region.start ≤ b.region.start := by
    refine h.apart.imp_of_mem fun {a b} ha _ hab => ?_
    exact (h.stands a ha).start_lt_stop.le.trans hab
  have hlength := List.length_filter_le (fun e => decide (e.region.start ≤ byte)) m.expressions
  rw [culprit?, Mask.culprit?, ofMask]
  dsimp only
  cases m.expressions.findIdx? (byte ∈ ·.region) with
  | some i => rfl
  | none =>
    rw [findIdx?_reverse hsorted]
    cases hn : (m.expressions.filter fun e => e.region.start ≤ byte).length with
    | zero => rfl
    | succ n =>
      rw [hn] at hlength
      refine congrArg some ?_
      omega

/-- Where an expression is blanked, the mask without it is left. -/
theorem mapIdx_shownByte_eraseIdx {m : Mask} (h : m.Fits) {n : Nat} (hn : n < m.expressions.length) :
    ((utf8 m.text).mapIdx fun i b => if i ∈ m.expressions[n].region then
      blankByte (shownByte m.scripts m.expressions i b)
      else shownByte m.scripts m.expressions i b) =
      (utf8 m.text).mapIdx (shownByte m.scripts (m.expressions.eraseIdx n)) := by
  refine mapIdx_congr fun i b hb => ?_
  split
  · rename_i hi
    rw [h.blankByte_shownByte hb]
    exact (shownByte_of_not_mem (h.not_mem_script (List.getElem_mem hn) hi)
      (h.apart.not_mem_of_mem_eraseIdx hn hi)).symm
  · rename_i hi
    refine shownByte_congr h.apart fun e hei => ⟨fun he => ?_, List.mem_of_mem_eraseIdx⟩
    obtain ⟨k, hk, rfl⟩ := List.getElem_of_mem he
    refine List.mem_eraseIdx_iff_getElem.2 ⟨k, hk, ?_, rfl⟩
    rintro rfl
    exact hi hei

/-- An expression that is given up is blanked, and the mask without it is left. -/
theorem dropAt?_ofMask {m : Mask} (h : m.Fits) (byte : Nat) : (ofMask m).dropAt? byte =
    some (match m.dropAt byte with
      | some m' => (true, ofMask m')
      | none => (false, ofMask m)) := by
  rw [dropAt?, Mask.dropAt, culprit?_ofMask h]
  show (if m.scripts.any (byte ∈ ·) then _ else _) = _
  split
  · rfl
  · cases hculprit : m.culprit? byte with
    | none => rfl
    | some n =>
      have hn := m.culprit?_lt hculprit
      have hstands := h.stands _ (List.getElem_mem hn)
      have hstop : m.expressions[n].region.stop ≤ (utf8 m.text).length :=
        length_utf8 m.text ▸ hstands.region_stop.le
      obtain ⟨old, hslice, hwrite⟩ := blank_mapIdx (f := shownByte m.scripts m.expressions)
        hstands.start_lt_stop.le hstop
      show Option.bind (m.expressions[n]?) _ = _
      rw [List.getElem?_eq_getElem hn, Option.bind_some]
      show Option.bind (slice? (utf8 m.render) _) (fun old => Option.bind
        (overwrite? (utf8 m.render) _ _) _) = _
      rw [Mask.utf8_render h, hslice, Option.bind_some, hwrite, Option.bind_some,
        mapIdx_shownByte_eraseIdx h hn,
        ← Mask.utf8_render (h.sublist (m.expressions.eraseIdx_sublist n))]
      rfl

theorem dropAll?_ofMask {m : Mask} (h : m.Fits) (errors : List Nat) :
    (ofMask m).dropAll? errors = some (ofMask (m.dropAll errors)) := by
  induction errors generalizing m with
  | nil => rfl
  | cons byte errors ih =>
    have hstep : ((ofMask m).dropAt? byte).map Prod.snd =
        some (ofMask ((m.dropAt byte).getD m)) ∧ ((m.dropAt byte).getD m).Fits := by
      rw [dropAt?_ofMask h]
      cases hdrop : m.dropAt byte with
      | none => exact ⟨rfl, h⟩
      | some m' =>
        obtain ⟨n, -, rfl⟩ := Mask.dropAt_eq_some hdrop
        exact ⟨rfl, h.sublist (m.expressions.eraseIdx_sublist n)⟩
    rw [dropAll?, List.foldlM_cons, hstep.1]
    exact ih hstep.2

end Buffer

/-! ### What buffers show -/

/-- A byte that shows for one of the body of an expression: the same byte, save that `in` shows for
the `of` of a loop. -/
def Expression.ShowsBody (e : Expression) (i : Nat) (b shown : UInt8) : Prop :=
  i ∈ e.body ∧
    ((e.loopWord = some i ∧ b = 'o'.toUInt8 ∧ shown = 'i'.toUInt8) ∨
      (e.loopWord.map (· + 1) = some i ∧ b = 'f'.toUInt8 ∧ shown = 'n'.toUInt8) ∨
      (e.loopWord ≠ some i ∧ e.loopWord.map (· + 1) ≠ some i ∧ shown = b))

/-- A byte that shows for a delimiter of an expression. -/
def Expression.ShowsDelimiter (e : Expression) (i : Nat) (b shown : UInt8) : Prop :=
  (∃ c, IsDelimiter c ∧ b = c.toUInt8) ∧
    ((i = e.region.start ∧ shown = ';'.toUInt8) ∨
      (i + 1 = e.body.start ∧ shown = '('.toUInt8) ∨
      (i = e.body.stop ∧ shown = ')'.toUInt8) ∨
      (e.terminated = true ∧ i + 1 = e.region.stop ∧ shown = ';'.toUInt8))

/-- A byte that does not show: a blank, or the line break that it is. -/
def ShowsBlank (b shown : UInt8) : Prop :=
  ((b = '\n'.toUInt8 ∨ b = '\r'.toUInt8) ∧ shown = b) ∨ shown = ' '.toUInt8

/-- A buffer shows a text without moving any byte. -/
structure Buffer.Shows (text : List Char) (b : Buffer) : Prop where
  length : b.bytes.length = (utf8 text).length
  valid : b.bytes.toByteArray.IsValidUTF8
  lines : ∀ i : Nat, ∀ c ∈ ['\n', '\r'],
    b.bytes[i]? = some c.toUInt8 ↔ (utf8 text)[i]? = some c.toUInt8
  scripts : ∀ s ∈ b.scripts, ∃ script, slice? (utf8 text) s = some script ∧
    slice? b.bytes s = some script
  bodies : ∀ e ∈ b.expressions, ∀ i ∈ e.body, ∃ y shown, (utf8 text)[i]? = some y ∧
    b.bytes[i]? = some shown ∧ e.ShowsBody i y shown
  others : ∀ (i : Nat) y, (utf8 text)[i]? = some y → (∀ s ∈ b.scripts, i ∉ s) → ∃ shown,
    b.bytes[i]? = some shown ∧ ((∃ e ∈ b.expressions, e.ShowsBody i y shown) ∨
      (∃ e ∈ b.expressions, e.ShowsDelimiter i y shown) ∨ ShowsBlank y shown)

theorem showsBlank_blankByte (b : UInt8) : ShowsBlank b (blankByte b) := by
  unfold ShowsBlank blankByte
  split
  · exact .inl ⟨‹_›, rfl⟩
  · exact .inr rfl

theorem blankByte_eq_iff {c : Char} (hc : c ∈ ['\n', '\r']) {b : UInt8} :
    blankByte b = c.toUInt8 ↔ b = c.toUInt8 := by
  unfold blankByte
  split
  · rfl
  · rename_i hb
    simp only [List.mem_cons, List.not_mem_nil, or_false] at hc
    obtain rfl | rfl := hc
    · exact iff_of_false (by decide) fun h => hb (.inl h)
    · exact iff_of_false (by decide) fun h => hb (.inr h)

theorem Expression.Stands.showsBody {text : List Char} {e : Expression} (h : e.Stands text)
    {i : Nat} {b : UInt8} (hb : (utf8 text)[i]? = some b) (hi : i ∈ e.body) :
    e.ShowsBody i b (e.shownByte i b) := by
  obtain ⟨-, h₁, h₂, h₃, h₄⟩ := h.mem_body hi
  rw [shownByte, if_neg h₁, if_neg h₂, if_neg h₃, if_neg h₄, if_pos hi]
  refine ⟨hi, ?_⟩
  split_ifs with h₅ h₆
  · exact .inl ⟨h₅, (h.loop_byte hb).1 h₅, rfl⟩
  · exact .inr (.inl ⟨h₆, (h.loop_byte hb).2 h₆, rfl⟩)
  · exact .inr (.inr ⟨h₅, h₆, rfl⟩)

theorem Expression.Stands.shownByte_cases {text : List Char} {e : Expression} (h : e.Stands text)
    {i : Nat} {b : UInt8} (hb : (utf8 text)[i]? = some b) :
    e.ShowsBody i b (e.shownByte i b) ∨ e.ShowsDelimiter i b (e.shownByte i b) ∨
      ShowsBlank b (e.shownByte i b) := by
  by_cases hi : i ∈ e.body
  · exact .inl (h.showsBody hb hi)
  · refine .inr ?_
    rw [shownByte, if_neg hi]
    split_ifs with h₁ h₂ h₃ h₄
    · exact .inl ⟨h.delimiter_byte hb (.inl h₁), .inl ⟨h₁, rfl⟩⟩
    · exact .inl ⟨h.delimiter_byte hb (.inr (.inl h₂)), .inr (.inl ⟨h₂, rfl⟩)⟩
    · exact .inl ⟨h.delimiter_byte hb (.inr (.inr (.inl h₃))), .inr (.inr (.inl ⟨h₃, rfl⟩))⟩
    · exact .inl ⟨h.delimiter_byte hb (.inr (.inr (.inr h₄))),
        .inr (.inr (.inr ⟨h₄.1, h₄.2, rfl⟩))⟩
    · exact .inr (showsBlank_blankByte b)

namespace Buffer

/-- Any byte of a mask is one of its text, in its place. -/
theorem getElem?_ofMask {m : Mask} (h : m.Fits) (i : Nat) :
    (ofMask m).bytes[i]? = (utf8 m.text)[i]?.map (shownByte m.scripts m.expressions i) := by
  show (utf8 m.render)[i]? = _
  rw [Mask.utf8_render h, List.getElem?_mapIdx]

theorem shows_ofMask {m : Mask} (h : m.Fits) : (ofMask m).Shows m.text where
  length := by
    show (utf8 m.render).length = _
    rw [Mask.utf8_render h, List.length_mapIdx]
  valid := ⟨m.render, rfl⟩
  lines i c hc := by
    rw [getElem?_ofMask h]
    cases hb : (utf8 m.text)[i]? with
    | none => rfl
    | some b =>
      rw [Option.map_some, Option.some_inj, Option.some_inj, ← blankByte_eq_iff hc,
        h.blankByte_shownByte hb, blankByte_eq_iff hc]
  scripts s hs := by
    have hs : s ∈ m.scripts := hs
    obtain ⟨hle, -, hstop⟩ := h.scripts s hs
    have hlength : s.stop ≤ (utf8 m.text).length := length_utf8 m.text ▸ hstop.le
    have hslice := slice?_of_le hle hlength
    refine ⟨_, hslice, Eq.trans ?_ hslice⟩
    show slice? (utf8 m.render) s = _
    rw [Mask.utf8_render h]
    exact slice?_mapIdx hle hlength fun i b hi => shownByte_of_mem_script hs hi
  bodies e he i hi := by
    have hstands := h.stands e he
    obtain ⟨hregion, -⟩ := hstands.mem_body hi
    have hlt : i < (utf8 m.text).length := by
      have := hstands.region_stop.le
      rw [Span.mem_iff] at hregion
      rw [length_utf8]
      omega
    have hy := List.getElem?_eq_getElem hlt
    refine ⟨_, _, hy, (getElem?_ofMask h i).trans (congrArg _ hy), ?_⟩
    rw [shownByte_of_mem (h.not_mem_script he hregion) h.apart he hregion]
    exact hstands.showsBody hy hi
  others i y hy hs := by
    refine ⟨_, (getElem?_ofMask h i).trans (congrArg _ hy), ?_⟩
    have hs : ∀ s ∈ m.scripts, i ∉ s := hs
    rw [shownByte_eq_match hs]
    cases hfound : m.expressions.find? (i ∈ ·.region) with
    | none => exact .inr (.inr (showsBlank_blankByte y))
    | some e =>
      have he := List.mem_of_find?_eq_some hfound
      exact ((h.stands e he).shownByte_cases hy).imp (⟨e, he, ·⟩) (.imp_left (⟨e, he, ·⟩))

/-- Masks of a text that have the same expressions left are the same. -/
theorem bytes_ofMask_congr {m m' : Mask} (h : m.Fits) (h' : m'.Fits) (ht : m.text = m'.text)
    (hs : m.scripts = m'.scripts) (hes : ∀ e, e ∈ m.expressions ↔ e ∈ m'.expressions) :
    (ofMask m).bytes = (ofMask m').bytes := by
  refine List.ext_getElem? fun i => ?_
  rw [getElem?_ofMask h, getElem?_ofMask h', ht, hs]
  exact congrFun (congrArg Option.map (funext fun _ => shownByte_congr h.apart fun e _ => hes e)) _

/-- The mask of a component can be written and its expressions be given up for any errors, and at
any time it shows the text.  It depends on the expressions that are left only, and where none is
given up it stays as it is. -/
theorem faithful_dropAll (text : List Char) (errors : List Nat) : ∃ b,
    (ofText? text (scriptBlocks text)).bind (·.dropAll? errors) = some b ∧
    b = ofMask ((Mask.ofText text (scriptBlocks text)).dropAll errors) ∧
    b.scripts = scriptBlocks text ∧
    b.expressions.Sublist (Mask.ofText text (scriptBlocks text)).expressions ∧
    b.Shows text ∧
    (∀ errors' b', (ofText? text (scriptBlocks text)).bind (·.dropAll? errors') = some b' →
      (∀ e, e ∈ b'.expressions ↔ e ∈ b.expressions) → b'.bytes = b.bytes) ∧
    ∀ byte, ∃ done b', b.dropAt? byte = some (done, b') ∧ (done = false → b' = b) ∧
      (done = true → ∃ n < b.expressions.length, b'.expressions = b.expressions.eraseIdx n) := by
  have hfits := Mask.fits_ofText text
  have hrun : ∀ errors, (ofText? text (scriptBlocks text)).bind (·.dropAll? errors) =
      some (ofMask ((Mask.ofText text (scriptBlocks text)).dropAll errors)) := fun errors => by
    rw [ofText?_eq hfits, Option.bind_some, dropAll?_ofMask hfits]
  have hleft := fun errors => (Mask.ofText text (scriptBlocks text)).dropAll_eq errors
  obtain ⟨es, hes, hdrop⟩ := hleft errors
  have hfits' := hfits.sublist hes
  refine ⟨_, hrun errors, rfl, ?_⟩
  rw [hdrop]
  refine ⟨rfl, hes, shows_ofMask hfits', fun errors' b' hb' hsame => ?_, fun byte => ?_⟩
  · obtain ⟨es', hes', hdrop'⟩ := hleft errors'
    rw [hrun, hdrop'] at hb'
    cases hb'
    exact bytes_ofMask_congr (hfits.sublist hes') hfits' rfl rfl hsame
  · have hdropAt := dropAt?_ofMask hfits' byte
    cases hone : Mask.dropAt _ byte with
    | none =>
      rw [hone] at hdropAt
      exact ⟨_, _, hdropAt, fun _ => rfl, nofun⟩
    | some m' =>
      rw [hone] at hdropAt
      obtain ⟨n, hn, rfl⟩ := Mask.dropAt_eq_some hone
      exact ⟨_, _, hdropAt, nofun, fun _ => ⟨n, Mask.culprit?_lt _ hn, rfl⟩⟩

end Buffer

end AnySpans.Vue
