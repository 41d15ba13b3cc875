import AnySpans.Proofs.Masks
import AnySpans.Proofs.Tags

/-!
# The expressions of a template

What stands between double braces and in the values of directives is told by relations
(`IsInterpolation`, `IsDirective`), and so is the template (`IsTemplate`).  The expressions of a document
are those of the matches from left to right that are not blank and do not begin inside of an expression
that is kept (`templateExpressions_complete`).
-/

namespace AnySpans.Text.Cursor

variable {cs : List Char} {k l m : Cursor} {p : Char → Bool} {c d : Char}

theorem expect_pair_iff : k.expect [(· == c), (· == d)] = some l ↔ k.Passes [c, d] l := by
  rw [expect_eq_some_iff]
  constructor
  · rintro ⟨cs, hcs, _ | ⟨hc, _ | ⟨hd, _ | _⟩⟩⟩
    rwa [eq_of_beq hc, eq_of_beq hd] at hcs
  · exact fun h => ⟨_, h, .cons (beq_self_eq_true c) (.cons (beq_self_eq_true d) .nil)⟩

/-- The end of a longest run, and a character after it that is not of the run. -/
theorem skipWhile_eq_and_one_iff (hc : p c = false) : k.skipWhile p = l ∧ l.one (· == c) = some m ↔
    ∃ cs, k.Passes cs l ∧ (∀ d ∈ cs, p d = true) ∧ l.Passes [c] m := by
  rw [one_char_iff]
  constructor
  · rintro ⟨rfl, hm⟩
    obtain ⟨cs, hcs, hp, -⟩ := k.exists_skipWhile p
    exact ⟨cs, hcs, hp, hm⟩
  · rintro ⟨cs, hcs, hp, hm⟩
    refine ⟨skipWhile_eq hcs hp fun d hd => ?_, hm⟩
    rw [hm.rest] at hd
    cases hd
    exact hc

theorem run_eq_some_iff : k.run p = some l ↔ ∃ cs, cs ≠ [] ∧ k.Passes cs l ∧ (∀ c ∈ cs, p c = true) ∧
    ∀ c ∈ l.rest.head?, p c = false := by
  rw [run, Option.map_eq_some_iff]
  simp only [one_eq_some_iff]
  constructor
  · rintro ⟨m, ⟨c, hc, hp⟩, rfl⟩
    obtain ⟨cs, hcs, hps, hnext⟩ := m.exists_skipWhile p
    exact ⟨c :: cs, by simp, hc.trans hcs, List.forall_mem_cons.2 ⟨hp, hps⟩, hnext⟩
  · rintro ⟨cs, hne, hcs, hp, hnext⟩
    obtain ⟨c, cs, rfl⟩ := List.exists_cons_of_ne_nil hne
    obtain ⟨m, hm, hl⟩ := (show k.Passes ([c] ++ cs) l from hcs).divide
    obtain ⟨hpc, hps⟩ := List.forall_mem_cons.1 hp
    exact ⟨m, ⟨c, hm, hpc⟩, skipWhile_eq hl hps hnext⟩

end AnySpans.Text.Cursor

namespace AnySpans.Vue

open AnySpans.Text AnySpans.Text.Cursor

variable {k l m : Cursor} {a : Expression × List Char} {e : Expression} {inner cs : List Char}

/-! ### Interpolations -/

/-- An interpolation stands between two places: a text between double braces, up to the first that
close. -/
def IsInterpolation (k : Cursor) (a : Expression × List Char) (m : Cursor) : Prop :=
  ∃ start stop, k.Passes ['\x7b', '\x7b'] start ∧ start.Passes a.2 stop ∧
    stop.Passes ['\x7d', '\x7d'] m ∧
    (∀ ds l n, start.Passes ds l → ds.length < a.2.length → ¬l.Passes ['\x7d', '\x7d'] n) ∧
    a.1 = ⟨⟨k.byte, m.byte⟩, ⟨start.byte, stop.byte⟩, none, true⟩

theorem interpolation_iff : interpolation k = some (a, m) ↔ IsInterpolation k a m := by
  have hfails : ∀ {start : Cursor} {n : Nat},
      Fails (·.expect [(· == '\x7d'), (· == '\x7d')]) start n ↔
        ∀ ds l o, start.Passes ds l → ds.length < n → ¬l.Passes ['\x7d', '\x7d'] o := by
    intro start n
    refine forall₂_congr fun ds l => ?_
    simp only [Option.eq_none_iff_forall_ne_some, ne_eq, expect_pair_iff]
    exact ⟨fun h o hl hn => h hl hn o, fun h hl hn o => h o hl hn⟩
  rw [interpolation]
  simp only [Option.bind_eq_bind, Option.bind_eq_some_iff, expect_pair_iff, Prod.exists,
    find_eq_some_iff, hfails]
  constructor
  · rintro ⟨start, hstart, stop, after, ⟨inner, hinner, hclose, hnone⟩, heq⟩
    cases heq
    rw [hinner.textTo_eq]
    exact ⟨start, stop, hstart, hinner, hclose, hnone, rfl⟩
  · rintro ⟨start, stop, hstart, hinner, hclose, hnone, heq⟩
    refine ⟨start, hstart, stop, m, ⟨_, hinner, hclose, hnone⟩, ?_⟩
    obtain ⟨e, inner⟩ := a
    obtain rfl := heq
    rw [hinner.textTo_eq]
    rfl

/-! ### Directives -/

/-- The name of a directive: `v-` or one of `:`, `@`, `#`, then more. -/
def IsDirectiveName (name : List Char) : Prop :=
  ∃ first ∈ [['v', '-'], [':'], ['@'], ['#']], ∃ more, name = first ++ more ∧ more ≠ [] ∧
    ∀ c ∈ more, isNameChar c = true

theorem directiveName_iff : directiveName k = some l ↔
    ∃ name, k.Passes name l ∧ IsDirectiveName name ∧ ∀ c ∈ l.rest.head?, isNameChar c = false := by
  have hone : ∀ {m}, k.one (fun c => c == ':' || c == '@' || c == '#') = some m ↔
      ∃ c ∈ [':', '@', '#'], k.Passes [c] m := by
    intro m
    simp only [one_eq_some_iff, List.mem_cons, List.not_mem_nil, or_false, Bool.or_eq_true, beq_iff_eq,
      or_assoc]
    exact exists_congr fun c => and_comm
  rw [directiveName, Option.bind_eq_bind, Option.bind_eq_some_iff]
  simp only [run_eq_some_iff]
  constructor
  · rintro ⟨m, hm, more, hne, hmore, hchars, hnext⟩
    cases hv : k.expect [(· == 'v'), (· == '-')] with
    | some n =>
      rw [hv] at hm
      cases hm
      exact ⟨_, (expect_pair_iff.1 hv).trans hmore, ⟨_, by simp, more, rfl, hne, hchars⟩, hnext⟩
    | none =>
      rw [hv] at hm
      obtain ⟨c, hc, hcm⟩ := hone.1 hm
      exact ⟨_, hcm.trans hmore, ⟨[c], by simpa using hc, more, rfl, hne, hchars⟩, hnext⟩
  · rintro ⟨_, hname, ⟨first, hfirst, more, rfl, hne, hchars⟩, hnext⟩
    obtain ⟨m, hm, hmore⟩ := hname.divide
    refine ⟨m, ?_, more, hne, hmore, hchars, hnext⟩
    obtain rfl | hfirst := List.mem_cons.1 hfirst
    · rw [expect_pair_iff.2 hm]
      rfl
    · -- what begins with another character does not begin with `v-`
      obtain ⟨c, hc, rfl⟩ : ∃ c ∈ [':', '@', '#'], first = [c] := by simpa using hfirst
      have hnone : k.expect [(· == 'v'), (· == '-')] = none := by
        refine Option.eq_none_iff_forall_ne_some.2 fun n hn => ?_
        have hv := (expect_pair_iff.1 hn).rest
        rw [hm.rest] at hv
        injection hv with hv
        subst hv
        exact absurd hc (by decide)
      rw [hnone]
      exact hone.2 ⟨c, hc, hm⟩

/-- A directive with its value stands between two places.  Its expression begins at the sign between
them; a character that a terminator can be written over belongs to it as well. -/
inductive IsDirective : Cursor → Expression × List Char → Cursor → Prop
  | mk {k name nameEnd sign equals quote start stop m : Cursor} {space q : Char}
    {text gap gap' value : List Char} :
    k.Passes [space] name → isSpace space = true →
    name.Passes text nameEnd → IsDirectiveName text →
    nameEnd.Passes gap sign → (∀ c ∈ gap, isSpace c = true) → sign.Passes ['='] equals →
    equals.Passes gap' quote → (∀ c ∈ gap', isSpace c = true) →
    q ∈ ['"', '\''] → quote.Passes [q] start → start.Passes value stop → q ∉ value →
    stop.Passes [q] m →
    IsDirective k (
      let terminated := m.rest.head?.any fun c => c == ' ' || c == '\t' || c == '>' || c == '/'
      (⟨⟨sign.byte, if terminated then m.byte + 1 else m.byte⟩, ⟨start.byte, stop.byte⟩,
        if text = "v-for".toList then loopWord ⟨start.byte, value⟩ else none, terminated⟩, value)) m

/-- The code points of white space. -/
def spaces : List Nat :=
  [9, 10, 11, 12, 13, 0x20, 0x85, 0xA0, 0x1680, 0x2000, 0x2001, 0x2002, 0x2003, 0x2004, 0x2005, 0x2006,
    0x2007, 0x2008, 0x2009, 0x200A, 0x2028, 0x2029, 0x202F, 0x205F, 0x3000]

theorem mem_spaces_of_isSpace {c : Char} (h : isSpace c = true) : c.toNat ∈ spaces := by
  simp only [isSpace, Bool.or_eq_true, Bool.and_eq_true, decide_eq_true_eq, beq_iff_eq] at h
  simp only [spaces, List.mem_cons, List.not_mem_nil, or_false]
  omega

theorem isNameChar_of_isSpace {c : Char} (h : isSpace c = true) : isNameChar c = false := by
  have hall : ∀ n ∈ spaces, isNameChar (Char.ofNat n) = false := by decide +kernel
  have := hall _ (mem_spaces_of_isSpace h)
  rwa [Char.ofNat_toNat] at this

theorem directive_iff : directive k = some (a, m) ↔ IsDirective k a m := by
  constructor
  · intro h
    obtain ⟨name, hname, h⟩ := Option.bind_eq_some_iff.1 h
    obtain ⟨nameEnd, hnameEnd, h⟩ := Option.bind_eq_some_iff.1 h
    obtain ⟨equals, hequals, h⟩ := Option.bind_eq_some_iff.1 h
    obtain ⟨q, hq, h⟩ := Option.bind_eq_some_iff.1 h
    obtain ⟨start, hstart, h⟩ := Option.bind_eq_some_iff.1 h
    obtain ⟨after, hafter, h⟩ := Option.bind_eq_some_iff.1 h
    cases h
    obtain ⟨space, hspace, hisSpace⟩ := one_eq_some_iff.1 hname
    obtain ⟨text, htext, hisName, -⟩ := directiveName_iff.1 hnameEnd
    obtain ⟨gap, hgap, hspaces, hsign⟩ := (skipWhile_eq_and_one_iff (by decide)).1 ⟨rfl, hequals⟩
    obtain ⟨gap', hgap', hspaces', -⟩ := equals.exists_skipWhile isSpace
    obtain ⟨value, hvalue, hplain, hclose⟩ := (skipWhile_eq_and_one_iff (by simp)).1 ⟨rfl, hafter⟩
    obtain ⟨-, hquote⟩ := Option.filter_eq_some_iff.1 hq
    rw [htext.textTo_eq, hvalue.textTo_eq]
    refine .mk hspace hisSpace htext hisName hgap hspaces hsign hgap' hspaces' (by simpa using hquote)
      (one_char_iff.1 hstart) hvalue (fun hmem => ?_) hclose
    simpa using hplain _ hmem
  · intro h
    cases h with
    | @mk name nameEnd sign equals quote start stop _ space q text gap gap' value hspace hisSpace
        htext hisName hgap hspaces hsign hgap' hspaces' hq hstart hvalue hplain hclose =>
      have hisQuote : (q == '"' || q == '\'') = true := by simpa using hq
      have hname : directiveName name = some nameEnd := by
        refine directiveName_iff.2 ⟨text, htext, hisName, fun c hc => ?_⟩
        have hhead := Passes.head?_eq (hgap.trans hsign)
        rw [hhead] at hc
        cases gap with
        | nil =>
          cases hc
          decide
        | cons d gap =>
          cases hc
          exact isNameChar_of_isSpace (hspaces _ List.mem_cons_self)
      obtain ⟨hskip, hequals⟩ := (skipWhile_eq_and_one_iff (by decide)).2 ⟨gap, hgap, hspaces, hsign⟩
      have hskip' : equals.skipWhile isSpace = quote := by
        refine skipWhile_eq hgap' hspaces' fun c hc => ?_
        rw [hstart.rest] at hc
        cases hc
        obtain rfl | rfl : q = '"' ∨ q = '\'' := by simpa using hq
        · decide
        · decide
      have hhead : (quote.rest.head?.filter fun c => c == '"' || c == '\'') = some q := by
        rw [hstart.rest]
        simp [hisQuote]
      have hvalue' : ∀ c ∈ value, (c != q) = true := by
        intro c hc
        rw [bne_iff_ne]
        rintro rfl
        exact hplain hc
      obtain ⟨hskip'', hlast⟩ := (skipWhile_eq_and_one_iff (p := (· != q)) (by simp)).2
        ⟨value, hvalue, hvalue', hclose⟩
      rw [directive, one_eq_some_iff.2 ⟨space, hspace, hisSpace⟩]
      simp only [Option.bind_eq_bind, Option.bind_some, hname, hskip, hequals, hskip', hhead,
        one_char_iff.2 hstart, hskip'', hlast, htext.textTo_eq, hvalue.textTo_eq]
      rfl

/-! ### Templates -/

/-- The template of a document: from the end of the first opening tag that has a closing tag after it to
the last closing tag. -/
def IsTemplate (text : List Char) (source : Cursor) : Prop :=
  ∃ before l attributes start stop m, (ofText text 0).Passes before l ∧
    IsOpening "template" l attributes start ∧ start.Passes source.rest stop ∧
    IsClosing "template" stop m ∧ source.byte = start.byte ∧
    (∀ ds n o, start.Passes ds n → source.rest.length < ds.length → ¬IsClosing "template" n o) ∧
    ∀ ds n, (ofText text 0).Passes ds n → ds.length < before.length →
      ∀ attributes' start', ¬IsOpening "template" n attributes' start'

/-- A template at a cursor: where it begins and ends. -/
def templateFrom (k : Cursor) : Option (Cursor × Cursor) := do
  let tag ← opening "template" k
  let (stop, _) ← tag.after.findLast (closing "template")
  return (tag.after, stop)

theorem template?_eq (text : List Char) : template? text =
    ((ofText text 0).find templateFrom).map fun found =>
      ⟨found.2.1.byte, found.2.1.textTo found.2.2⟩ := by
  rw [template?]
  cases hfound : (ofText text 0).find templateFrom with
  | none =>
    show ((ofText text 0).find templateFrom).bind _ = _
    rw [hfound]
    rfl
  | some found =>
    show ((ofText text 0).find templateFrom).bind _ = _
    rw [hfound]
    rfl

theorem findLast_closing_iff {start stop : Cursor} :
    start.findLast (closing "template") = some (stop, m) ↔ ∃ inner, start.Passes inner stop ∧
      IsClosing "template" stop m ∧
      ∀ ds n o, start.Passes ds n → inner.length < ds.length → ¬IsClosing "template" n o := by
  rw [findLast_eq_some_iff]
  simp only [closing_iff, Option.eq_none_iff_forall_ne_some, ne_eq]
  exact exists_congr fun inner => and_congr_right fun _ => and_congr_right fun _ =>
    ⟨fun h ds n o hn hlt => h ds n hn hlt o, fun h ds n hn hlt o => h ds n o hn hlt⟩

theorem templateFrom_iff {start stop : Cursor} : templateFrom k = some (start, stop) ↔
    ∃ attributes inner m, IsOpening "template" k attributes start ∧ start.Passes inner stop ∧
      IsClosing "template" stop m ∧
      ∀ ds n o, start.Passes ds n → inner.length < ds.length → ¬IsClosing "template" n o := by
  constructor
  · intro h
    obtain ⟨tag, htag, h⟩ := Option.bind_eq_some_iff.1 h
    obtain ⟨⟨stop', m⟩, hlast, h⟩ := Option.bind_eq_some_iff.1 h
    cases h
    obtain ⟨inner, hinner⟩ := findLast_closing_iff.1 hlast
    exact ⟨_, inner, m, opening_iff.1 ⟨tag, htag, rfl, rfl⟩, hinner⟩
  · rintro ⟨attributes, inner, m, hopen, hinner⟩
    obtain ⟨tag, htag, rfl, -⟩ := opening_iff.2 hopen
    rw [templateFrom, htag]
    simp only [Option.bind_eq_bind, Option.bind_some]
    rw [findLast_closing_iff.2 ⟨inner, hinner⟩]
    rfl

/-- An opening tag with a closing tag somewhere after it begins a template. -/
theorem templateFrom_ne_none {attributes : List Char} {start stop : Cursor}
    (hopen : IsOpening "template" k attributes start) (hinner : start.Passes inner stop)
    (hclose : IsClosing "template" stop m) : templateFrom k ≠ none := by
  intro hnone
  cases hlast : start.findLast (closing "template") with
  | none =>
    have := findLast_eq_none_iff.1 hlast inner stop hinner
    cases this.symm.trans (closing_iff.2 hclose)
  | some found =>
    obtain ⟨inner', hinner', hclose', hlater⟩ := findLast_closing_iff.1 hlast
    cases hnone.symm.trans (templateFrom_iff.2 ⟨_, _, _, hopen, hinner', hclose', hlater⟩)

theorem template?_iff {text : List Char} {source : Cursor} :
    template? text = some source ↔ IsTemplate text source := by
  rw [template?_eq, Option.map_eq_some_iff]
  constructor
  · rintro ⟨⟨l, start, stop⟩, hfind, rfl⟩
    obtain ⟨before, hl, hfrom, hfails⟩ := find_eq_some_iff.1 hfind
    obtain ⟨attributes, inner, m, hopen, hinner, hclose, hlater⟩ := templateFrom_iff.1 hfrom
    dsimp only
    rw [hinner.textTo_eq]
    refine ⟨before, l, attributes, start, stop, m, hl, hopen, hinner, hclose, rfl, hlater,
      fun ds n hn hlt attributes' start' hopen' => ?_⟩
    -- an earlier opening tag would have the same closing tag after it
    obtain ⟨between, hbetween⟩ := hopen'.exists_passes_after (by decide) hn hl hlt hopen hinner
    exact templateFrom_ne_none hopen' hbetween hclose (hfails ds n hn hlt)
  · rintro ⟨before, l, attributes, start, stop, m, hl, hopen, hinner, hclose, hbyte, hlater, hfirst⟩
    refine ⟨(l, start, stop), find_eq_some_iff.2 ⟨before, hl, templateFrom_iff.2
      ⟨_, _, m, hopen, hinner, hclose, hlater⟩, fun ds n hn hlt => ?_⟩, ?_⟩
    · refine Option.eq_none_iff_forall_ne_some.2 fun found hfound => ?_
      obtain ⟨attributes', -, -, hopen', -⟩ := templateFrom_iff.1 hfound
      exact hfirst ds n hn hlt attributes' _ hopen'
    · dsimp only
      rw [hinner.textTo_eq, ← hbyte]

/-! ### Matches -/

/-- What is matched in the template of a document: the interpolations from left to right, then the
directives, each with its text; nothing if there is no template. -/
def Matched (text : List Char) (matched : List (Expression × List Char)) : Prop :=
  (∃ source is ds, IsTemplate text source ∧ Scanned IsInterpolation source is ∧
    Scanned IsDirective source ds ∧ matched = is ++ ds) ∨
  ((∀ source, ¬IsTemplate text source) ∧ matched = [])

/-- The matches of a document. -/
def templateMatches (text : List Char) : List (Expression × List Char) :=
  match template? text with
  | none => []
  | some source => source.all interpolation ++ source.all directive

/-- The text of an expression stands at its place. -/
def Expression.Holds (text : List Char) (e : Expression) (inner : List Char) : Prop :=
  ∃ pre post, text = pre ++ inner ++ post ∧ byteLength pre = e.body.start ∧
    byteLength pre + byteLength inner = e.body.stop

theorem IsInterpolation.exists_passes (h : IsInterpolation k a m) : ∃ c cs, k.Passes (c :: cs) m := by
  obtain ⟨start, stop, hopen, hinner, hclose, -⟩ := h
  exact ⟨_, _, (hopen.trans hinner).trans hclose⟩

theorem IsDirective.exists_passes (h : IsDirective k a m) : ∃ c cs, k.Passes (c :: cs) m := by
  cases h with
  | mk hspace _ htext _ hgap _ hsign hgap' _ _ hquote hvalue _ hclose =>
    exact ⟨_, _, (((((((hspace.trans htext).trans hgap).trans hsign).trans hgap').trans hquote).trans
      hvalue).trans hclose)⟩

theorem matched_iff {text : List Char} {matched : List (Expression × List Char)} :
    Matched text matched ↔ matched = templateMatches text := by
  have hinterpolations : ∀ {source is}, Scanned IsInterpolation source is ↔
      is = source.all interpolation :=
    scanned_iff (fun _ _ _ => interpolation_iff) fun _ _ _ => IsInterpolation.exists_passes
  have hdirectives : ∀ {source ds}, Scanned IsDirective source ds ↔ ds = source.all directive :=
    scanned_iff (fun _ _ _ => directive_iff) fun _ _ _ => IsDirective.exists_passes
  rw [Matched, templateMatches]
  simp only [← template?_iff, hinterpolations, hdirectives]
  cases template? text <;> simp

theorem holds_of_interpolation {text : List Char} (hk : k.In text) (h : IsInterpolation k a m) :
    a.1.Holds text a.2 := by
  obtain ⟨start, stop, hopen, hinner, -, -, heq⟩ := h
  obtain ⟨pre, post, htext, hpre⟩ := (hk.passes hopen).part hinner
  rw [heq]
  exact ⟨pre, post, htext, hpre, by rw [hpre]; exact hinner.byte.symm⟩

theorem holds_of_directive {text : List Char} (hk : k.In text) (h : IsDirective k a m) :
    a.1.Holds text a.2 := by
  cases h with
  | mk hspace _ hname _ hgap _ hsign hgap' _ _ hquote hvalue _ _ =>
    have hstart := ((((hspace.trans hname).trans hgap).trans hsign).trans hgap').trans hquote
    obtain ⟨pre, post, htext, hpre⟩ := (hk.passes hstart).part hvalue
    exact ⟨pre, post, htext, hpre, by rw [hpre]; exact hvalue.byte.symm⟩

/-- What is matched stands in the document. -/
theorem holds_of_mem_templateMatches {text : List Char} (h : a ∈ templateMatches text) :
    a.1.Holds text a.2 := by
  rw [templateMatches] at h
  split at h
  · cases h
  · rename_i source hsource
    have hin := in_of_template? hsource
    obtain h | h := List.mem_append.1 h
    · obtain ⟨l, m, ⟨cs, hcs⟩, hl⟩ := exists_passes_of_mem_all
        (fun _ _ _ h => (interpolation_eq_some h).1) h
      exact holds_of_interpolation (hin.passes hcs) (interpolation_iff.1 hl)
    · obtain ⟨l, m, ⟨cs, hcs⟩, hl⟩ := exists_passes_of_mem_all
        (fun _ _ _ h => (directive_eq_some h).1) h
      exact holds_of_directive (hin.passes hcs) (directive_iff.1 hl)

/-! ### The expressions that are kept -/

theorem keepDisjoint_sublist (stop : Nat) (es : List Expression) :
    (keepDisjoint stop es).Sublist es := by
  induction es generalizing stop with
  | nil => exact .slnil
  | cons d ds ih =>
    rw [keepDisjoint]
    split
    · exact (ih stop).cons d
    · exact (ih d.region.stop).cons_cons d

/-- An expression that is not kept begins before the given place or inside of one that is kept. -/
theorem keepDisjoint_complete (stop : Nat) {es : List Expression}
    (hes : es.Pairwise fun d e => d.region.start ≤ e.region.start) :
    ∀ e ∈ es, e ∈ keepDisjoint stop es ∨ e.region.start < stop ∨
      ∃ r ∈ keepDisjoint stop es, e.region.start ∈ r.region := by
  induction es generalizing stop with
  | nil => exact nofun
  | cons d ds ih =>
    obtain ⟨hfirst, hds⟩ := List.pairwise_cons.1 hes
    intro e he
    rw [keepDisjoint]
    split
    · rename_i hskipped
      obtain rfl | he := List.mem_cons.1 he
      · exact .inr (.inl hskipped)
      · exact ih stop hds e he
    · obtain rfl | he := List.mem_cons.1 he
      · exact .inl List.mem_cons_self
      · obtain hkept | hbefore | ⟨r, hr, hmem⟩ := ih d.region.stop hds e he
        · exact .inl (List.mem_cons_of_mem d hkept)
        · exact .inr (.inr ⟨d, List.mem_cons_self, (Span.mem_iff _).2 ⟨hfirst e he, hbefore⟩⟩)
        · exact .inr (.inr ⟨r, List.mem_cons_of_mem d hr, hmem⟩)

/-- Of what is matched, the expressions with a text are kept, unless they begin inside of one that is. -/
theorem kept_of_templateMatches (text : List Char) :
    (∀ e ∈ templateExpressions text, ∃ inner, (e, inner) ∈ templateMatches text ∧
      hasNoText inner = false) ∧
    ∀ a ∈ templateMatches text, hasNoText a.2 = false → a.1 ∈ templateExpressions text ∨
      ∃ r ∈ templateExpressions text, a.1.region.start ∈ r.region := by
  rw [templateMatches, templateExpressions]
  cases htemplate : template? text with
  | none => exact ⟨nofun, nofun⟩
  | some source =>
    have hmatched : ∀ {e}, e ∈ matchedExpressions source ↔
        ∃ inner, (e, inner) ∈ source.all interpolation ++ source.all directive ∧
          hasNoText inner = false := by
      intro e
      simp only [matchedExpressions, List.mem_map, List.mem_filter, Bool.not_eq_true']
      constructor
      · rintro ⟨⟨_, inner⟩, h, rfl⟩
        exact ⟨inner, h⟩
      · rintro ⟨inner, h⟩
        exact ⟨(e, inner), h, rfl⟩
    have hsorted : ((matchedExpressions source).mergeSort fun a b =>
        a.region.start ≤ b.region.start).Pairwise fun a b => a.region.start ≤ b.region.start := by
      have := @List.pairwise_mergeSort Expression (fun a b => a.region.start ≤ b.region.start)
        (by simpa using fun a b c => Nat.le_trans) (by simpa using fun a b => Nat.le_total _ _)
        (matchedExpressions source)
      simpa using this
    refine ⟨fun e he => ?_, fun a ha htext => ?_⟩
    · exact hmatched.1 (List.mem_mergeSort.1 ((keepDisjoint_sublist 0 _).mem he))
    · have hmem := hmatched.2 ⟨a.2, ha, htext⟩
      obtain hkept | hbefore | hinside := keepDisjoint_complete 0 hsorted a.1 (List.mem_mergeSort.2 hmem)
      · exact .inl hkept
      · cases hbefore
      · exact .inr hinside

/-! ### Well-formed expressions -/

/-- An expression lies in a text with its body inside of its region, its delimiters are single bytes and
no line breaks, and the `of` of a loop lies in its body. -/
structure Expression.WellFormed (text : List Char) (e : Expression) : Prop where
  inside : e.region.stop ≤ (utf8 text).length
  opens : e.region.start < e.body.start
  closes : e.body.stop < e.region.stop
  delimiters : ∀ i, (i = e.region.start ∨ i + 1 = e.body.start ∨ i = e.body.stop ∨
    e.terminated = true ∧ i + 1 = e.region.stop) →
      ∃ b, (utf8 text)[i]? = some b ∧ b < 128 ∧ b ≠ '\n'.toUInt8 ∧ b ≠ '\r'.toUInt8
  loop : ∀ i, e.loopWord = some i → e.body.start ≤ i ∧ i + 2 ≤ e.body.stop ∧
    (utf8 text)[i]? = some 'o'.toUInt8 ∧ (utf8 text)[i + 1]? = some 'f'.toUInt8

theorem IsDelimiter.toUInt8 {c : Char} (h : IsDelimiter c) :
    c.toUInt8 < 128 ∧ c.toUInt8 ≠ '\n'.toUInt8 ∧ c.toUInt8 ≠ '\r'.toUInt8 := by
  simp only [IsDelimiter, List.mem_cons, List.not_mem_nil, or_false] at h
  rcases h with rfl | rfl | rfl | rfl | rfl | rfl | rfl | rfl | rfl <;> decide

theorem Expression.Stands.wellFormed {text : List Char} (h : e.Stands text) : e.WellFormed text := by
  have hinside : e.region.stop ≤ (utf8 text).length := length_utf8 text ▸ h.region_stop.le
  have hordered := h.ordered
  obtain ⟨i, hi, hlt, -⟩ := h.quotes
  obtain ⟨hstop, -⟩ := h.stop_bounds
  refine ⟨hinside, by omega, by omega, fun j hj => ?_, fun j hj => ?_⟩
  · have hb := List.getElem?_eq_getElem (l := utf8 text) (i := j) (by omega)
    obtain ⟨c, hc, heq⟩ := h.delimiter_byte hb hj
    exact ⟨_, hb, heq ▸ hc.toUInt8⟩
  · obtain ⟨⟨hle, hlast⟩, ho, hf⟩ := h.loop j hj
    obtain ⟨_, rfl, ho⟩ := getElem?_utf8_of_standsAt ho (by rintro _ rfl; rfl)
    obtain ⟨_, rfl, hf⟩ := getElem?_utf8_of_standsAt hf (by rintro _ rfl; rfl)
    exact ⟨hle, hlast, ho, hf⟩

/-- The expressions of a document are well-formed, come one after another and have a text.  All of them
are matched in the template, and what is matched and has a text is one of them or begins inside of
one. -/
theorem templateExpressions_complete (text : List Char) :
    ∃ matched, Matched text matched ∧ (∀ matched', Matched text matched' → matched' = matched) ∧
      (templateExpressions text).Pairwise (fun d e => d.region.stop ≤ e.region.start) ∧
      (∀ e ∈ templateExpressions text, e.WellFormed text ∧
        ∃ inner, (e, inner) ∈ matched ∧ hasNoText inner = false ∧ e.Holds text inner) ∧
      ∀ a ∈ matched, hasNoText a.2 = false → a.1 ∈ templateExpressions text ∨
        ∃ r ∈ templateExpressions text, a.1.region.start ∈ r.region := by
  obtain ⟨hapart, hstands⟩ := templateExpressions_apart text
  obtain ⟨hmatched, hcomplete⟩ := kept_of_templateMatches text
  refine ⟨templateMatches text, matched_iff.2 rfl, fun _ h => matched_iff.1 h, hapart, fun e he => ?_,
    hcomplete⟩
  obtain ⟨inner, hmem, htext⟩ := hmatched e he
  exact ⟨(hstands e he).wellFormed, inner, hmem, htext, holds_of_mem_templateMatches hmem⟩

end AnySpans.Vue
