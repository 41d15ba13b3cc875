import AnySpans.Signature.AnyType
import AnySpans.Signature.Hover
import Mathlib.Data.List.TakeWhile

/-!
# Hover texts with carriage returns

A hover may end its lines with a carriage return and a line feed (`Hover.withReturns`).  White space
around a signature and the lines of a code block are the same then (`trim_withReturns`,
`splitLines_withReturns`), but no line is empty any more, so a text without a code block is not cut
after its first paragraph (`firstParagraph_withReturns`).  The signature is the same exactly if there
was nothing to cut off (`signature_withReturns_iff`).
-/

namespace AnySpans.Text

variable {cs ds : List Char} {c : Char}

/-! ### Carriage returns -/

/-- A text with a carriage return before each line feed. -/
def withReturns (cs : List Char) : List Char := cs.flatMap fun c => if c = '\n' then ['\r', '\n'] else [c]

/-- A text without the carriage returns before line feeds. -/
def withoutReturns : List Char → List Char
  | '\r' :: '\n' :: cs => '\n' :: withoutReturns cs
  | [] => []
  | c :: cs => c :: withoutReturns cs

theorem withReturns_cons (c : Char) (cs : List Char) :
    withReturns (c :: cs) = (if c = '\n' then ['\r', '\n'] else [c]) ++ withReturns cs := rfl

theorem withReturns_eq_nil_iff : withReturns cs = [] ↔ cs = [] := by
  cases cs with
  | nil => exact Iff.rfl
  | cons c cs =>
    rw [withReturns_cons]
    split <;> simp

theorem withoutReturns_cons_of_ne (hc : c ≠ '\r') : withoutReturns (c :: cs) = c :: withoutReturns cs := by
  rw [withoutReturns]
  rintro _ rfl
  exact absurd rfl hc

theorem withoutReturns_of_not_mem (h : '\r' ∉ cs) : withoutReturns cs = cs := by
  induction cs with
  | nil => rfl
  | cons c cs ih =>
    rw [withoutReturns_cons_of_ne fun hc => h (hc ▸ List.mem_cons_self),
      ih fun hmem => h (List.mem_cons_of_mem c hmem)]

theorem withoutReturns_withReturns (h : '\r' ∉ cs) : withoutReturns (withReturns cs) = cs := by
  induction cs with
  | nil => rfl
  | cons c cs ih =>
    have ih := ih fun hmem => h (List.mem_cons_of_mem c hmem)
    have hc : c ≠ '\r' := fun hc => h (hc ▸ List.mem_cons_self)
    rw [withReturns_cons]
    split
    · rename_i hfeed
      rw [hfeed]
      show '\n' :: withoutReturns (withReturns cs) = _
      rw [ih]
    · rw [List.singleton_append, withoutReturns_cons_of_ne hc, ih]

/-- A text of one line had no line break with a carriage return. -/
theorem withoutReturns_of_lineless (h : '\n' ∉ withoutReturns cs) : withoutReturns cs = cs := by
  fun_induction withoutReturns cs with
  | case1 cs => exact absurd List.mem_cons_self h
  | case2 => rfl
  | case3 c cs _ ih => rw [ih fun hmem => h (List.mem_cons_of_mem c hmem)]

/-! ### White space -/

/-- Characters may be replaced by others, as long as white space stays what it is. -/
theorem dropWhile_flatMap_isSpace {f : Char → List Char}
    (hspace : ∀ c, isSpace c = true → ∀ d ∈ f c, isSpace d = true)
    (hkeep : ∀ c, isSpace c = false → f c = [c]) (cs : List Char) :
    (cs.flatMap f).dropWhile isSpace = (cs.dropWhile isSpace).flatMap f := by
  induction cs with
  | nil => rfl
  | cons c cs ih =>
    rw [List.flatMap_cons]
    cases hc : isSpace c with
    | true => rw [List.dropWhile_append_of_pos (hspace c hc), List.dropWhile_cons_of_pos hc, ih]
    | false =>
      have hneg : ¬ isSpace c = true := by simp [hc]
      rw [hkeep c hc, List.singleton_append, List.dropWhile_cons_of_neg hneg,
        List.dropWhile_cons_of_neg hneg, List.flatMap_cons, hkeep c hc, List.singleton_append]

theorem trim_withReturns (cs : List Char) : trim (withReturns cs) = withReturns (trim cs) := by
  have hspace : ∀ c, isSpace c = true → ∀ d ∈ (if c = '\n' then ['\r', '\n'] else [c]),
      isSpace d = true := by
    intro c hc d hd
    split at hd
    · simp only [List.mem_cons, List.not_mem_nil, or_false] at hd
      obtain rfl | rfl := hd <;> rfl
    · rwa [List.mem_singleton.1 hd]
  have hkeep : ∀ c, isSpace c = false → (if c = '\n' then ['\r', '\n'] else [c]) = [c] := by
    intro c hc
    refine if_neg ?_
    rintro rfl
    cases hc
  rw [trim, withReturns, dropWhile_flatMap_isSpace hspace hkeep, List.reverse_flatMap,
    dropWhile_flatMap_isSpace, List.reverse_flatMap]
  · simp only [Function.comp_def, List.reverse_reverse]
    rfl
  · exact fun c hc d hd => hspace c hc d (List.mem_reverse.1 hd)
  · intro c hc
    rw [Function.comp_apply, hkeep c hc, List.reverse_singleton]

theorem filter_dropWhile_isSpace (cs : List Char) :
    (cs.dropWhile isSpace).filter (!isSpace ·) = cs.filter (!isSpace ·) := by
  induction cs with
  | nil => rfl
  | cons c cs ih =>
    cases hc : isSpace c with
    | true => rw [List.dropWhile_cons_of_pos hc, ih, List.filter_cons_of_neg (by simp [hc])]
    | false => rw [List.dropWhile_cons_of_neg (by simp [hc])]

/-- Trimming keeps all that is not white space. -/
theorem filter_trim (cs : List Char) : (trim cs).filter (!isSpace ·) = cs.filter (!isSpace ·) := by
  rw [trim, List.filter_reverse, filter_dropWhile_isSpace, List.filter_reverse, List.reverse_reverse,
    filter_dropWhile_isSpace]

theorem trim_append_of_spaces (h : ∀ d ∈ ds, isSpace d = true) : trim (cs ++ ds) = trim cs := by
  have hds : ds.dropWhile isSpace = [] := List.dropWhile_eq_nil_iff.2 h
  have hreverse : ∀ d ∈ ds.reverse, isSpace d = true := fun d hd => h d (List.mem_reverse.1 hd)
  rw [trim, trim, List.dropWhile_append]
  split
  · rename_i hempty
    rw [List.isEmpty_iff.1 hempty, hds]
  · rw [List.reverse_append, List.dropWhile_append_of_pos hreverse]

/-- Trimming gives the same for a part of a text exactly if white space follows it only. -/
theorem trim_eq_trim_append_iff : trim cs = trim (cs ++ ds) ↔ ∀ d ∈ ds, isSpace d = true := by
  refine ⟨fun h d hd => ?_, fun h => (trim_append_of_spaces h).symm⟩
  have hkept := congrArg (List.filter (!isSpace ·)) h
  rw [filter_trim, filter_trim, List.filter_append] at hkept
  have hnone := List.filter_eq_nil_iff.1 (List.self_eq_append_right.1 hkept) d hd
  simpa using hnone

/-! ### Lines and paragraphs -/

theorem dropReturn_of_not_mem (h : '\r' ∉ cs) : dropReturn cs = cs :=
  if_neg fun hlast => h (List.mem_of_getLast? hlast)

theorem dropReturn_append_return (cs : List Char) : dropReturn (cs ++ ['\r']) = cs := by
  rw [dropReturn, List.getLast?_concat, if_pos rfl, List.dropLast_concat]

theorem linesFrom_withReturns {current : List Char} (hcurrent : '\r' ∉ current) (h : '\r' ∉ cs) :
    linesFrom current (withReturns cs) = linesFrom current cs := by
  induction cs generalizing current with
  | nil => rfl
  | cons c cs ih =>
    have hcs : '\r' ∉ cs := fun hmem => h (List.mem_cons_of_mem c hmem)
    have hc : c ≠ '\r' := fun hc => h (hc ▸ List.mem_cons_self)
    have hreverse : '\r' ∉ current.reverse := fun hmem => hcurrent (List.mem_reverse.1 hmem)
    rw [withReturns_cons]
    by_cases hfeed : c = '\n'
    · rw [if_pos hfeed, hfeed]
      show dropReturn ('\r' :: current).reverse :: linesFrom [] (withReturns cs) =
        dropReturn current.reverse :: linesFrom [] cs
      rw [List.reverse_cons, dropReturn_append_return, dropReturn_of_not_mem hreverse,
        ih List.not_mem_nil hcs]
    · have hnext : '\r' ∉ c :: current := by simp [hc.symm, hcurrent]
      rw [if_neg hfeed, List.singleton_append, linesFrom, linesFrom, if_neg hfeed, if_neg hfeed,
        ih hnext hcs]

/-- Lines are the same, whichever way they are ended. -/
theorem splitLines_withReturns (h : '\r' ∉ cs) : splitLines (withReturns cs) = splitLines cs :=
  linesFrom_withReturns List.not_mem_nil h

theorem of_mem_linesFrom {current line : List Char} (hline : line ∈ linesFrom current cs)
    (hc : c ∈ line) : c ∈ current ∨ c ∈ cs := by
  induction cs generalizing current with
  | nil =>
    rw [linesFrom] at hline
    split at hline
    · cases hline
    · rw [List.mem_singleton.1 hline, List.mem_reverse] at hc
      exact .inl hc
  | cons d cs ih =>
    rw [linesFrom] at hline
    split at hline
    · obtain rfl | hline := List.mem_cons.1 hline
      · have hdrop : c ∈ current.reverse := by
          unfold dropReturn at hc
          split at hc
          · exact (List.dropLast_sublist _).mem hc
          · exact hc
        exact .inl (List.mem_reverse.1 hdrop)
      · obtain hc | hc := ih hline
        · cases hc
        · exact .inr (List.mem_cons_of_mem d hc)
    · obtain hc | hc := ih hline
      · obtain rfl | hc := List.mem_cons.1 hc
        · exact .inr List.mem_cons_self
        · exact .inl hc
      · exact .inr (List.mem_cons_of_mem d hc)

theorem of_mem_joinLines {lines : List (List Char)} (hc : c ∈ joinLines lines) :
    c = '\n' ∨ ∃ line ∈ lines, c ∈ line := by
  fun_induction joinLines lines with
  | case1 => cases hc
  | case2 line => exact .inr ⟨line, List.mem_cons_self, hc⟩
  | case3 line rest _ ih =>
    obtain hc | hc := List.mem_append.1 hc
    · exact .inr ⟨line, List.mem_cons_self, hc⟩
    · obtain rfl | hc := List.mem_cons.1 hc
      · exact .inl rfl
      · exact (ih hc).imp_right fun ⟨line', hline', hc'⟩ => ⟨line', List.mem_cons_of_mem _ hline', hc'⟩

theorem mem_of_mem_trim (hc : c ∈ trim cs) : c ∈ cs := by
  have hc := (List.dropWhile_sublist _).mem (List.mem_reverse.1 hc)
  exact (List.dropWhile_sublist _).mem (List.mem_reverse.1 hc)

theorem firstParagraph_isPrefix (cs : List Char) : firstParagraph cs <+: cs := by
  fun_induction firstParagraph cs with
  | case1 cs => exact List.nil_prefix
  | case2 => exact List.nil_prefix
  | case3 c cs _ ih => exact (List.prefix_cons_inj c).2 ih

/-- What follows the first paragraph, with the empty line before it. -/
def afterParagraph (cs : List Char) : List Char := cs.drop (firstParagraph cs).length

theorem firstParagraph_append (cs : List Char) : firstParagraph cs ++ afterParagraph cs = cs :=
  List.prefix_iff_eq_append.1 (firstParagraph_isPrefix cs)

theorem firstParagraph_cons (h : ¬ (c = '\n' ∧ cs.head? = some '\n')) :
    firstParagraph (c :: cs) = c :: firstParagraph cs := by
  rw [firstParagraph]
  rintro ds rfl rfl
  exact h ⟨rfl, rfl⟩

theorem head?_withReturns_ne (cs : List Char) : (withReturns cs).head? ≠ some '\n' := by
  cases cs with
  | nil => nofun
  | cons c cs =>
    rw [withReturns_cons]
    split
    · simp
    · rename_i hc
      simpa using hc

/-- With carriage returns no line is empty. -/
theorem firstParagraph_withReturns (cs : List Char) :
    firstParagraph (withReturns cs) = withReturns cs := by
  induction cs with
  | nil => rfl
  | cons c cs ih =>
    have hrest : ∀ d, firstParagraph (d :: withReturns cs) = d :: withReturns cs := fun d => by
      rw [firstParagraph_cons fun h => head?_withReturns_ne cs h.2, ih]
    rw [withReturns_cons]
    split
    · show firstParagraph ('\r' :: '\n' :: withReturns cs) = '\r' :: '\n' :: withReturns cs
      rw [firstParagraph_cons (by simp), hrest]
    · rw [List.singleton_append, hrest]

end AnySpans.Text

namespace AnySpans.Signature

open AnySpans.Text

variable {cs ds : List Char} {s : String} {m : Marked} {h : Hover}

/-! ### Hovers with carriage returns -/

/-- A text with a carriage return before each line feed. -/
def returned (s : String) : String := String.ofList (withReturns s.toList)

/-- A text without the carriage returns before line feeds. -/
def unreturned (s : String) : String := String.ofList (withoutReturns s.toList)

/-- The strings of a piece of hover text. -/
def Marked.strings : Marked → List String
  | text s => [s]
  | code language value => [language, value]

/-- A piece of hover text with a carriage return before each line feed. -/
def Marked.withReturns : Marked → Marked
  | text s => text (returned s)
  | code language value => code (returned language) (returned value)

/-- The pieces of a hover; marked-up text is one piece. -/
def Hover.pieces : Hover → List Marked
  | one m => [m]
  | several ms => ms
  | markup value => [.text value]

/-- A hover with a carriage return before each line feed. -/
def Hover.withReturns : Hover → Hover
  | one m => one m.withReturns
  | several ms => several (ms.map Marked.withReturns)
  | markup value => markup (returned value)

/-- No string has a carriage return. -/
def Marked.Returnless (m : Marked) : Prop := ∀ s ∈ m.strings, '\r' ∉ s.toList

/-- No string has a carriage return. -/
def Hover.Returnless (h : Hover) : Prop := ∀ m ∈ h.pieces, m.Returnless

instance (m : Marked) : Decidable m.Returnless :=
  inferInstanceAs (Decidable (∀ s ∈ m.strings, '\r' ∉ s.toList))

instance (h : Hover) : Decidable h.Returnless :=
  inferInstanceAs (Decidable (∀ m ∈ h.pieces, m.Returnless))

theorem Hover.pieces_withReturns (h : Hover) :
    h.withReturns.pieces = h.pieces.map Marked.withReturns := by
  cases h <;> rfl

theorem Hover.signature_eq_findSome? (h : Hover) : h.signature = h.pieces.findSome? Marked.signature := by
  cases h with
  | one m => exact (List.findSome?_singleton ..).symm
  | several ms => rfl
  | markup value => exact (List.findSome?_singleton ..).symm

/-! ### What is not empty -/

theorem nonEmpty_inj : nonEmpty cs = nonEmpty ds ↔ cs = ds := by
  refine ⟨fun h => ?_, congrArg nonEmpty⟩
  unfold nonEmpty at h
  split at h <;> split at h
  · rename_i hcs hds
    rw [hcs, hds]
  · cases h
  · cases h
  · exact String.ofList_injective (Option.some.inj h)

theorem unreturned_of_lineless (h : '\n' ∉ (unreturned s).toList) : unreturned s = s := by
  rw [unreturned, String.toList_ofList] at h
  rw [unreturned, withoutReturns_of_lineless h, String.ofList_toList]

theorem map_unreturned_nonEmpty (h : withoutReturns cs = ds) :
    (nonEmpty cs).map unreturned = if cs = [] then none else some (String.ofList ds) := by
  unfold nonEmpty
  split
  · rfl
  · rw [Option.map_some, unreturned, String.toList_ofList, h]

theorem map_unreturned_nonEmpty_of_not_mem (h : '\r' ∉ cs) :
    (nonEmpty cs).map unreturned = nonEmpty cs :=
  map_unreturned_nonEmpty (withoutReturns_of_not_mem h)

theorem map_unreturned_nonEmpty_withReturns (h : '\r' ∉ cs) :
    (nonEmpty (withReturns cs)).map unreturned = nonEmpty cs := by
  rw [map_unreturned_nonEmpty (withoutReturns_withReturns h), nonEmpty]
  simp only [withReturns_eq_nil_iff]

/-! ### Texts that are not cut -/

/-- The signature in a marked-up text that is taken whole if it has no code block. -/
def wholeSignature (s : String) : Option String :=
  match codeBlock? (splitLines s.toList) with
  | some lines => nonEmpty (trim (joinLines lines))
  | none => nonEmpty (trim s.toList)

/-- The signature in a piece of hover text that is not cut after its first paragraph. -/
def Marked.wholeSignature : Marked → Option String
  | text s => Signature.wholeSignature s
  | code _ value => nonEmpty (trim value.toList)

/-- The signature in a hover no text of which is cut after its first paragraph. -/
def Hover.wholeSignature (h : Hover) : Option String := h.pieces.findSome? Marked.wholeSignature

/-- There is nothing to cut off: the text has a code block, or white space only follows its first
paragraph. -/
def Marked.Uncut : Marked → Prop
  | text s => codeBlock? (splitLines s.toList) ≠ none ∨ ∀ c ∈ afterParagraph s.toList, isSpace c = true
  | code _ _ => True

theorem Marked.signature_eq_wholeSignature_iff : m.signature = m.wholeSignature ↔ m.Uncut := by
  cases m with
  | code language value => exact iff_of_true rfl trivial
  | text s =>
    show markupSignature s = Signature.wholeSignature s ↔
      codeBlock? (splitLines s.toList) ≠ none ∨ ∀ c ∈ afterParagraph s.toList, isSpace c = true
    unfold markupSignature Signature.wholeSignature
    cases hblock : codeBlock? (splitLines s.toList) with
    | some lines => exact iff_of_true rfl (.inl (Option.some_ne_none lines))
    | none =>
      dsimp only
      rw [nonEmpty_inj, or_iff_right (not_not.2 rfl)]
      rw [← congrArg trim (firstParagraph_append s.toList)]
      exact trim_eq_trim_append_iff

/-- The text of a code block has the carriage returns of its lines only. -/
theorem not_mem_of_codeBlock? {lines : List (List Char)} (h : '\r' ∉ cs)
    (hblock : codeBlock? (splitLines cs) = some lines) : '\r' ∉ trim (joinLines lines) := by
  intro hmem
  unfold codeBlock? at hblock
  split at hblock
  · cases hblock
  · rename_i fence rest hrest
    cases hblock
    obtain hfeed | ⟨line, hline, hmem⟩ := of_mem_joinLines (mem_of_mem_trim hmem)
    · cases hfeed
    · have hline' : line ∈ fence :: rest := List.mem_cons_of_mem _ ((List.takeWhile_sublist _).mem hline)
      rw [← hrest] at hline'
      obtain hmem | hmem := of_mem_linesFrom ((List.dropWhile_sublist _).mem hline') hmem
      · cases hmem
      · exact h hmem

theorem markupSignature_returned (h : '\r' ∉ s.toList) :
    (markupSignature (returned s)).map unreturned = wholeSignature s := by
  unfold markupSignature wholeSignature
  rw [returned, String.toList_ofList, splitLines_withReturns h]
  cases hblock : codeBlock? (splitLines s.toList) with
  | some lines => exact map_unreturned_nonEmpty_of_not_mem (not_mem_of_codeBlock? h hblock)
  | none =>
    dsimp only
    rw [firstParagraph_withReturns, trim_withReturns]
    exact map_unreturned_nonEmpty_withReturns fun hmem => h (mem_of_mem_trim hmem)

/-- With carriage returns a text without a code block is taken whole. -/
theorem Marked.signature_withReturns (hm : m.Returnless) :
    m.withReturns.signature.map unreturned = m.wholeSignature := by
  cases m with
  | text s =>
    show (markupSignature (returned s)).map unreturned = Signature.wholeSignature s
    exact markupSignature_returned (hm s List.mem_cons_self)
  | code language value =>
    have hvalue : '\r' ∉ value.toList := hm value (List.mem_cons_of_mem _ List.mem_cons_self)
    show (nonEmpty (trim (returned value).toList)).map unreturned = nonEmpty (trim value.toList)
    rw [returned, String.toList_ofList, trim_withReturns]
    exact map_unreturned_nonEmpty_withReturns fun hmem => hvalue (mem_of_mem_trim hmem)

/-- No signature has a carriage return where no string has one. -/
theorem Marked.signature_returnless (hm : m.Returnless) : m.signature.map unreturned = m.signature := by
  cases m with
  | text s =>
    have hs : '\r' ∉ s.toList := hm s List.mem_cons_self
    show (markupSignature s).map unreturned = markupSignature s
    unfold markupSignature
    cases hblock : codeBlock? (splitLines s.toList) with
    | some lines => exact map_unreturned_nonEmpty_of_not_mem (not_mem_of_codeBlock? hs hblock)
    | none =>
      refine map_unreturned_nonEmpty_of_not_mem fun hmem => hs ?_
      exact (firstParagraph_isPrefix _).sublist.mem (mem_of_mem_trim hmem)
  | code language value =>
    have hvalue : '\r' ∉ value.toList := hm value (List.mem_cons_of_mem _ List.mem_cons_self)
    exact map_unreturned_nonEmpty_of_not_mem fun hmem => hvalue (mem_of_mem_trim hmem)

theorem findSome?_congr {α β : Type} {f g : α → Option β} {as : List α} (h : ∀ a ∈ as, f a = g a) :
    as.findSome? f = as.findSome? g := by
  induction as with
  | nil => rfl
  | cons a as ih =>
    rw [List.findSome?_cons, List.findSome?_cons, h a List.mem_cons_self,
      ih fun b hb => h b (List.mem_cons_of_mem a hb)]

namespace Hover

/-- With carriage returns the signature is that of the texts taken whole. -/
theorem signature_withReturns (hr : h.Returnless) :
    h.withReturns.signature.map unreturned = h.wholeSignature := by
  rw [signature_eq_findSome?, pieces_withReturns, List.findSome?_map, List.map_findSome?]
  exact findSome?_congr fun m hm => Marked.signature_withReturns (hr m hm)

theorem signature_returnless (hr : h.Returnless) : h.signature.map unreturned = h.signature := by
  rw [signature_eq_findSome?, List.map_findSome?]
  exact findSome?_congr fun m hm => Marked.signature_returnless (hr m hm)

/-- Two hovers without carriage returns and with one before each line feed have no signature both, or
the same up to these carriage returns, exactly if the signature of the texts taken whole is the same;
a signature of one line is then the very same, and so is whether it declares an `any`.  That is so if
nothing is cut off from any text, and where there is one text only, only then. -/
theorem signature_withReturns_iff (hr : h.Returnless) :
    (h.withReturns.signature.map unreturned = h.signature.map unreturned ↔
        h.signature = h.wholeSignature) ∧
      (∀ s, h.signature = h.wholeSignature → h.signature = some s → '\n' ∉ s.toList →
        h.withReturns.signature = some s ∧
          h.withReturns.signature.any isAnyType = h.signature.any isAnyType) ∧
      ((∀ m ∈ h.pieces, m.Uncut) → h.signature = h.wholeSignature) ∧
      ∀ m, h.pieces = [m] → (h.signature = h.wholeSignature ↔ m.Uncut) := by
  have hwhole := signature_withReturns hr
  refine ⟨?_, fun s hcut hs hline => ?_, fun huncut => ?_, fun m hm => ?_⟩
  · rw [hwhole, signature_returnless hr, eq_comm]
  · rw [← hcut, hs] at hwhole
    obtain ⟨s', hs', rfl⟩ := Option.map_eq_some_iff.1 hwhole
    have hsame : h.withReturns.signature = h.signature := by
      rw [hs', hs, unreturned_of_lineless hline]
    exact ⟨hsame.trans hs, by rw [hsame]⟩
  · rw [signature_eq_findSome?, wholeSignature]
    exact findSome?_congr fun m hm => Marked.signature_eq_wholeSignature_iff.2 (huncut m hm)
  · rw [signature_eq_findSome?, wholeSignature, hm, List.findSome?_singleton,
      List.findSome?_singleton]
    exact Marked.signature_eq_wholeSignature_iff

/-- A signature in a code block, with documentation after it. -/
theorem signature_withReturns_of_block :
    let h : Hover := .markup "\x60\x60\x60typescript\nconst x: any\n\x60\x60\x60\n\nSome docs."
    h.Returnless ∧ h.withReturns.signature = some "const x: any" := by
  intro h
  have hr : h.Returnless := by decide
  have hs : h.signature = some "const x: any" := by cbv
  obtain ⟨-, hline, huncut, -⟩ := signature_withReturns_iff hr
  have hcut : h.signature = h.wholeSignature := huncut fun m hm => by
    rw [List.mem_singleton.1 hm]
    exact .inl (Option.isSome_iff_ne_none.1 (by cbv))
  exact ⟨hr, (hline _ hcut hs (by decide)).1⟩

/-- The signature of a plain text is not told from the documentation after it if there are carriage
returns: of the same text, the one declares an `any`, the other does not. -/
theorem signature_lost_in_paragraphs :
    let h : Hover := .one (.text "let y: any\n\nmore")
    h.Returnless ∧ h.signature = some "let y: any" ∧
      h.withReturns.signature = some "let y: any\r\n\r\nmore" ∧
      h.withReturns.signature.map unreturned ≠ h.signature.map unreturned ∧
      h.signature.any isAnyType = true ∧ h.withReturns.signature.any isAnyType = false := by
  refine ⟨by decide, by cbv, by cbv, ne_of_beq_false (by cbv), by cbv, by cbv⟩

end Hover

end AnySpans.Signature
