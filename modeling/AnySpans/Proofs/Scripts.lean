import AnySpans.Proofs.Settling
import AnySpans.Proofs.Tags

/-!
# The scripts of a component

`ScriptScan` is the scan from left to right that pairs tags: the next opening tag, the first closing tag
after it, and on from there.  Its elements are those that a component has (`scriptScan_iff`), and the
scripts in TypeScript are those of them that choose it and have a text (`scriptBlocks_eq`).
-/

namespace AnySpans.Text.Cursor

variable {cs ds : List Char} {k l m : Cursor}

theorem Passes.byte_le (h : k.Passes cs l) : k.byte ≤ l.byte := by
  rw [h.byte]
  exact Nat.le_add_right _ _

theorem Passes.byte_lt {c : Char} (h : k.Passes (c :: cs) l) : k.byte < l.byte := by
  have := c.utf8Size_pos
  rw [h.byte, byteLength_cons]
  omega

/-- Places come one after another as their offsets do. -/
theorem Passes.length_lt_of_byte_lt (h : k.Passes cs l) (h' : k.Passes ds m) (hlt : l.byte < m.byte) :
    cs.length < ds.length := by
  refine Nat.lt_of_not_le fun hle => ?_
  obtain ⟨es, -, hes⟩ := h'.exists_of_le h hle
  have := hes.byte_le
  omega

theorem Passes.exists_of_byte_le (h : k.Passes cs l) (h' : k.Passes ds m) (hle : l.byte ≤ m.byte) :
    ∃ es, l.Passes es m := by
  obtain hlength | hlength := Nat.le_total cs.length ds.length
  · obtain ⟨es, -, hes⟩ := h.exists_of_le h' hlength
    exact ⟨es, hes⟩
  · obtain ⟨es, -, hes⟩ := h'.exists_of_le h hlength
    cases es with
    | nil => exact ⟨[], hes.eq_of_nil ▸ .nil _⟩
    | cons c es =>
      have := hes.byte_lt
      omega

end AnySpans.Text.Cursor

namespace AnySpans.Vue

open AnySpans.Text AnySpans.Text.Cursor

variable {k l m start stop after : Cursor} {cs attributes inner : List Char} {e : Element}

/-! ### Pairs of tags -/

/-- No closing tag of a script begins between a cursor and the end of so many characters. -/
def NoneCloses (k : Cursor) (n : Nat) : Prop :=
  ∀ ds l m, k.Passes ds l → ds.length < n → ¬IsClosing "script" l m

/-- A script element stands between two places: an opening tag, a text and the first closing tag. -/
def IsScript (k : Cursor) (e : Element) (m : Cursor) : Prop :=
  ∃ attributes start inner stop, IsOpening "script" k attributes start ∧ start.Passes inner stop ∧
    IsClosing "script" stop m ∧ NoneCloses start inner.length ∧
    e = ⟨attributes, ⟨start.byte, stop.byte⟩⟩

theorem fails_closing_iff {n : Nat} : Fails (closing "script") k n ↔ NoneCloses k n := by
  refine forall₂_congr fun ds l => ?_
  constructor
  · intro h m hl hn hclose
    cases (h hl hn).symm.trans (closing_iff.2 hclose)
  · intro h hl hn
    exact Option.eq_none_iff_forall_ne_some.2 fun m hm => h m hl hn (closing_iff.1 hm)

theorem find_closing_iff : start.find (closing "script") = some (stop, m) ↔
    ∃ inner, start.Passes inner stop ∧ IsClosing "script" stop m ∧ NoneCloses start inner.length := by
  rw [find_eq_some_iff]
  simp only [closing_iff, fails_closing_iff]

theorem scriptElement_iff : scriptElement k = some (e, m) ↔ IsScript k e m := by
  constructor
  · intro h
    obtain ⟨tag, htag, h⟩ := Option.bind_eq_some_iff.1 h
    obtain ⟨⟨stop, last⟩, hfind, h⟩ := Option.bind_eq_some_iff.1 h
    cases h
    obtain ⟨inner, hinner, hclose, hnone⟩ := find_closing_iff.1 hfind
    exact ⟨_, tag.after, inner, stop, opening_iff.1 ⟨tag, htag, rfl, rfl⟩, hinner, hclose, hnone, rfl⟩
  · rintro ⟨attributes, start, inner, stop, hopen, hinner, hclose, hnone, rfl⟩
    obtain ⟨tag, htag, rfl, rfl⟩ := opening_iff.2 hopen
    rw [scriptElement, htag]
    simp only [Option.bind_eq_bind, Option.bind_some]
    rw [find_closing_iff.2 ⟨inner, hinner, hclose, hnone⟩]
    rfl

theorem IsScript.exists_passes (h : IsScript k e m) : ∃ c cs, k.Passes (c :: cs) m := by
  obtain ⟨attributes, start, inner, stop, hopen, hinner, hclose, -⟩ := h
  obtain ⟨c, cs, hcs⟩ := hopen.exists_passes
  obtain ⟨d, ds, hds⟩ := hclose.exists_passes
  exact ⟨c, _, (hcs.trans hinner).trans hds⟩

/-- An opening tag with a closing tag somewhere after it begins an element. -/
theorem exists_isScript (hopen : IsOpening "script" k attributes start)
    (hinner : start.Passes inner stop) (hclose : IsClosing "script" stop m) : ∃ e m, IsScript k e m := by
  cases hfind : start.find (closing "script") with
  | none =>
    have := find_eq_none_iff.1 hfind inner stop hinner
    cases this.symm.trans (closing_iff.2 hclose)
  | some found =>
    obtain ⟨inner', hinner', hclose', hnone⟩ := find_closing_iff.1 hfind
    exact ⟨_, _, attributes, start, inner', found.1, hopen, hinner', hclose', hnone, rfl⟩

/-! ### The scan from left to right -/

/-- The elements of the scan from a place on: the next opening tag, through its first `>`, and the first
closing tag that follows begin and end one, and the scan goes on after it; it stops where no such pair
of tags is left. -/
inductive ScriptScan : Cursor → List Element → Prop
  | stop {k : Cursor} : (∀ cs l attributes start inner stop m, k.Passes cs l →
      IsOpening "script" l attributes start → start.Passes inner stop → ¬IsClosing "script" stop m) →
      ScriptScan k []
  | next {k l start stop m : Cursor} {cs attributes inner : List Char} {es : List Element} :
      k.Passes cs l → IsOpening "script" l attributes start →
      (∀ ds n, k.Passes ds n → ds.length < cs.length →
        ∀ attributes' start', ¬IsOpening "script" n attributes' start') →
      start.Passes inner stop → IsClosing "script" stop m → NoneCloses start inner.length →
      ScriptScan m es → ScriptScan k (⟨attributes, ⟨start.byte, stop.byte⟩⟩ :: es)

theorem scriptScan_iff {es : List Element} : ScriptScan k es ↔ es = k.all scriptElement := by
  rw [← scanned_iff (fun _ _ _ => scriptElement_iff) fun _ _ _ => IsScript.exists_passes]
  constructor
  · intro h
    induction h with
    | stop h =>
      refine .stop fun cs l hl e m => ?_
      rintro ⟨attributes, start, inner, stop, hopen, hinner, hclose, -⟩
      exact h cs l attributes start inner stop m hl hopen hinner hclose
    | next hl hopen hfirst hinner hclose hnone _ ih =>
      refine .next hl ⟨_, _, _, _, hopen, hinner, hclose, hnone, rfl⟩ (fun ds n hn hlt e m => ?_) ih
      rintro ⟨attributes, start, -, -, hopen', -⟩
      exact hfirst ds n hn hlt attributes start hopen'
  · intro h
    induction h with
    | stop h =>
      refine .stop fun cs l attributes start inner stop m hl hopen hinner hclose => ?_
      obtain ⟨e, m, he⟩ := exists_isScript hopen hinner hclose
      exact h cs l hl e m he
    | next hl hscript hfirst _ ih =>
      obtain ⟨attributes, start, inner, stop, hopen, hinner, hclose, hnone, rfl⟩ := hscript
      refine .next hl hopen (fun ds n hn hlt attributes' start' hopen' => ?_) hinner hclose hnone ih
      -- an earlier opening tag would have the same closing tag after it
      obtain ⟨between, hbetween⟩ := hopen'.exists_passes_after (by decide) hn hl hlt hopen hinner
      obtain ⟨e, m, he⟩ := exists_isScript hopen' hbetween hclose
      exact hfirst ds n hn hlt e m he

/-! ### Attributes -/

/-- A `lang` attribute with the value `ts` in quotes stands in a text, not after a word character. -/
def HasLang (attributes : List Char) : Prop :=
  ∃ before name gap gap' value after, ∃ q ∈ ['"', '\''], ∃ q' ∈ ['"', '\''],
    attributes = before ++ (name ++ gap ++ '=' :: (gap' ++ q :: (value ++ q' :: after))) ∧
    (∀ c ∈ before.getLast?, isWord c = false) ∧ Spells "lang" name ∧ Spells "ts" value ∧
    (∀ c ∈ gap, isSpace c = true) ∧ ∀ c ∈ gap', isSpace c = true

theorem langAttribute_iff : langAttribute k = some after ↔
    ∃ name gap gap' value, ∃ q ∈ ['"', '\''], ∃ q' ∈ ['"', '\''],
      k.Passes (name ++ (gap ++ ['='] ++ (gap' ++ q :: (value ++ [q'])))) after ∧ Spells "lang" name ∧
        Spells "ts" value ∧ (∀ c ∈ gap, isSpace c = true) ∧ ∀ c ∈ gap', isSpace c = true := by
  have hquote : ∀ c : Char, (c == '"' || c == '\'') = true ↔ c ∈ ['"', '\''] := by simp
  have hspace : ∀ c : Char, (c == '"' || c == '\'') = true → isSpace c = false := by
    intro c hc
    obtain rfl | rfl : c = '"' ∨ c = '\'' := by simpa using hc
    · decide
    · decide
  have hvalue : ∀ ds, List.Forall₂ (fun c (p : Char → Bool) => p c = true) ds
      (letters "ts" ++ [fun c => c == '"' || c == '\'']) → ∃ t s q', ds = [t, s, q'] ∧
        folds 't' t = true ∧ folds 's' s = true ∧ (q' == '"' || q' == '\'') = true := by
    rintro _ (_ | ⟨ht, _ | ⟨hs, _ | ⟨hq', _ | _⟩⟩⟩)
    exact ⟨_, _, _, rfl, ht, hs, hq'⟩
  rw [langAttribute]
  simp only [Option.bind_eq_bind, Option.bind_eq_some_iff, expect_letters_iff,
    skipWhile_one_iff (show isSpace '=' = false by decide), List.cons_append, List.nil_append,
    skipWhile_expect_iff hspace]
  constructor
  · rintro ⟨k₁, ⟨name, hname, hlang⟩, k₂, ⟨gap, hgap, hspaces⟩, gap', ds, hds, hspaces', hps⟩
    cases hps with
    | @cons q _ ds _ hq hps =>
      obtain ⟨t, s, q', rfl, ht, hs, hq'⟩ := hvalue ds hps
      exact ⟨name, gap, gap', [t, s], q, (hquote q).1 hq, q', (hquote q').1 hq',
        hname.trans (hgap.trans hds), hlang, .cons ht (.cons hs .nil), hspaces, hspaces'⟩
  · rintro ⟨name, gap, gap', value, q, hq, q', hq', hpasses, hlang, hts, hspaces, hspaces'⟩
    obtain ⟨k₁, hname, hrest⟩ := hpasses.divide
    obtain ⟨k₂, hgap, hlast⟩ := hrest.divide
    refine ⟨k₁, ⟨name, hname, hlang⟩, k₂, ⟨gap, hgap, hspaces⟩, gap', _, hlast, hspaces',
      .cons ((hquote q).2 hq) ?_⟩
    obtain _ | ⟨ht, _ | ⟨hs, _ | _⟩⟩ := hts
    exact .cons ht (.cons hs (.cons ((hquote q').2 hq') .nil))

theorem isSome_langAttribute_iff {cs : List Char} : (langAttribute (.ofText cs 0)).isSome ↔
    ∃ name gap gap' value after, ∃ q ∈ ['"', '\''], ∃ q' ∈ ['"', '\''],
      cs = name ++ gap ++ '=' :: (gap' ++ q :: (value ++ q' :: after)) ∧ Spells "lang" name ∧
        Spells "ts" value ∧ (∀ c ∈ gap, isSpace c = true) ∧ ∀ c ∈ gap', isSpace c = true := by
  simp only [Option.isSome_iff_exists, langAttribute_iff]
  constructor
  · rintro ⟨l, name, gap, gap', value, q, hq, q', hq', hpasses, h⟩
    refine ⟨name, gap, gap', value, l.rest, q, hq, q', hq', ?_, h⟩
    simpa [ofText] using hpasses.rest
  · rintro ⟨name, gap, gap', value, after, q, hq, q', hq', rfl, h⟩
    refine ⟨⟨_, after⟩, name, gap, gap', value, q, hq, q', hq', ⟨?_, rfl⟩, h⟩
    simp [ofText]

theorem choosesTypeScript_iff_exists {previous : Option Char} {cs : List Char} :
    choosesTypeScript previous cs = true ↔ ∃ before rest, cs = before ++ rest ∧
      (∀ c ∈ (previous.toList ++ before).getLast?, isWord c = false) ∧
      (langAttribute (.ofText rest 0)).isSome := by
  have hfirst : ∀ previous : Option Char, (!previous.any isWord) = true ↔
      ∀ c ∈ (previous.toList ++ []).getLast?, isWord c = false := by
    intro previous
    cases previous <;> simp
  induction cs generalizing previous with
  | nil =>
    refine iff_of_false Bool.false_ne_true ?_
    rintro ⟨before, rest, hcs, -, hsome⟩
    obtain ⟨-, rfl⟩ := List.append_eq_nil_iff.1 hcs.symm
    cases hsome
  | cons c cs ih =>
    rw [choosesTypeScript, Bool.or_eq_true]
    refine (or_congr_right ih).trans ?_
    constructor
    · rintro (h | ⟨before, rest, rfl, hword, hsome⟩)
      · rw [Bool.and_eq_true] at h
        exact ⟨[], c :: cs, rfl, (hfirst previous).1 h.1, h.2⟩
      · exact ⟨c :: before, rest, rfl, by simpa [List.getLast?_append] using hword, hsome⟩
    · rintro ⟨before, rest, hcs, hword, hsome⟩
      cases before with
      | nil =>
        obtain rfl : rest = c :: cs := hcs.symm
        exact .inl (Bool.and_eq_true_iff.2 ⟨(hfirst previous).2 hword, hsome⟩)
      | cons d before =>
        obtain ⟨rfl, rfl⟩ := List.cons_eq_cons.1 hcs
        exact .inr ⟨before, rest, rfl, by simpa [List.getLast?_append] using hword, hsome⟩

theorem choosesTypeScript_iff {attributes : List Char} :
    choosesTypeScript none attributes = true ↔ HasLang attributes := by
  rw [choosesTypeScript_iff_exists, HasLang]
  simp only [isSome_langAttribute_iff, Option.toList_none, List.nil_append]
  constructor
  · rintro ⟨before, rest, rfl, hword, name, gap, gap', value, after, q, hq, q', hq', rfl, h⟩
    exact ⟨before, name, gap, gap', value, after, q, hq, q', hq', rfl, hword, h⟩
  · rintro ⟨before, name, gap, gap', value, after, q, hq, q', hq', rfl, hword, h⟩
    exact ⟨before, _, rfl, hword, name, gap, gap', value, after, q, hq, q', hq', rfl, h⟩

instance (attributes : List Char) : Decidable (HasLang attributes) :=
  decidable_of_iff _ choosesTypeScript_iff

/-! ### What is scanned -/

/-- The elements of a scan come one after another, and no closing tag begins inside of one. -/
theorem ScriptScan.ordered {es : List Element} (h : ScriptScan k es) :
    (es.Pairwise fun a b => a.body.stop < b.body.start) ∧
      ∀ e ∈ es, k.byte < e.body.start ∧
        ∀ cs l m, k.Passes cs l → l.byte ∈ e.body → ¬IsClosing "script" l m := by
  induction h with
  | stop => exact ⟨.nil, nofun⟩
  | @next k l start stop m cs attributes inner es hl hopen _ hinner hclose hnone _ ih =>
    obtain ⟨hapart, hafter⟩ := ih
    obtain ⟨c, tag, htag⟩ := hopen.exists_passes
    obtain ⟨d, tail, htail⟩ := hclose.exists_passes
    have hstart := hl.trans htag
    have hm := (hstart.trans hinner).trans htail
    have hkl := hl.byte_le
    have hlstart := htag.byte_lt
    have hstartstop := hinner.byte_le
    have hstopm := htail.byte_lt
    refine ⟨List.pairwise_cons.2 ⟨fun e he => ?_, hapart⟩, fun e he => ?_⟩
    · have := (hafter e he).1
      show stop.byte < e.body.start
      omega
    obtain rfl | he := List.mem_cons.1 he
    · refine ⟨Nat.lt_of_le_of_lt hkl hlstart, fun ds n o hn hmem => ?_⟩
      obtain ⟨hge, hlt⟩ := (Span.mem_iff _).1 hmem
      obtain ⟨part, hpart⟩ := hstart.exists_of_byte_le hn hge
      exact hnone part n o hpart (hpart.length_lt_of_byte_lt hinner hlt)
    · obtain ⟨hbyte, hplain⟩ := hafter e he
      refine ⟨by omega, fun ds n o hn hmem => ?_⟩
      obtain ⟨hge, -⟩ := (Span.mem_iff _).1 hmem
      obtain ⟨part, hpart⟩ := hm.exists_of_byte_le hn (by omega)
      exact hplain part n o hpart hmem

/-- The scripts in TypeScript are the texts of the scanned elements that choose it, if there is any
text. -/
theorem scriptBlocks_eq {text : List Char} {es : List Element}
    (h : ScriptScan (.ofText text 0) es) : scriptBlocks text =
      (es.filter fun e => HasLang e.attributes ∧ e.body.start < e.body.stop).map Element.body := by
  have hkeep : ∀ e : Element, (choosesTypeScript none e.attributes && decide (e.body.start < e.body.stop)) =
      decide (HasLang e.attributes ∧ e.body.start < e.body.stop) := by
    intro e
    simp only [← choosesTypeScript_iff, Bool.decide_and, Bool.decide_eq_true]
  rw [scriptBlocks, ← scriptScan_iff.1 h]
  simp only [hkeep]

/-- The scripts in TypeScript are those of the scan from left to right.  They come one after another,
begin and end between characters and hold no closing tag, and a component is one that can be analysed
just if there is such a script. -/
theorem scriptBlocks_scan (text : List Char) :
    ∃ es, ScriptScan (.ofText text 0) es ∧ (∀ es', ScriptScan (.ofText text 0) es' → es' = es) ∧
      scriptBlocks text =
        (es.filter fun e => HasLang e.attributes ∧ e.body.start < e.body.stop).map Element.body ∧
      (scriptBlocks text).Pairwise (fun s t => s.stop < t.start) ∧
      (∀ s ∈ scriptBlocks text, s.start < s.stop ∧ Boundary text s.start ∧ Boundary text s.stop ∧
        ∀ cs l m, (Cursor.ofText text 0).Passes cs l → l.byte ∈ s → ¬IsClosing "script" l m) ∧
      ∀ readers : Syntax.Readers, Syntax.Dialect.detect "vue" text = some .vue ↔
        readers.parse .vue text ≠ .error .noScript := by
  have hscan : ScriptScan (.ofText text 0) ((Cursor.ofText text 0).all scriptElement) :=
    scriptScan_iff.2 rfl
  have hblocks := scriptBlocks_eq hscan
  obtain ⟨hpairwise, hplain⟩ := hscan.ordered
  refine ⟨_, hscan, fun es h => scriptScan_iff.1 h, hblocks, ?_, fun s hs => ?_, fun readers => ?_⟩
  · rw [hblocks, List.pairwise_map]
    exact hpairwise.filter _
  · obtain ⟨-, hstart, hstop⟩ := boundaries_of_mem_scriptBlocks hs
    rw [hblocks] at hs
    obtain ⟨e, he, rfl⟩ := List.mem_map.1 hs
    obtain ⟨hmem, hkeep⟩ := List.mem_filter.1 he
    exact ⟨(of_decide_eq_true hkeep).2, hstart, hstop, (hplain e hmem).2⟩
  · rw [Ne, Syntax.parse_eq_noScript_iff, Syntax.Dialect.detect]
    cases scriptBlocks text <;> simp

end AnySpans.Vue
