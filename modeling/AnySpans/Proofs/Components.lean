import AnySpans.Proofs.Scans
import AnySpans.Vue.Script
import AnySpans.Vue.Template

/-!
# Where the parts of a component stand

The delimiters of a template expression are characters of one byte, and its body lies between them
(`Expression.Stands`); expressions of a template do not overlap (`templateExpressions_apart`).  The
scripts of a component begin and end between characters (`boundaries_of_mem_scriptBlocks`).
-/

namespace AnySpans.Text.Cursor

variable {cs : List Char} {k l : Cursor} {p q : Char → Bool}

theorem Passes.uncons {c : Char} (h : k.Passes (c :: cs) l) :
    ∃ m, k.Passes [c] m ∧ m.Passes cs l := by
  refine ⟨⟨k.byte + c.utf8Size, cs ++ l.rest⟩, ⟨h.rest, rfl⟩, rfl, ?_⟩
  rw [h.byte, byteLength_cons, Nat.add_assoc]

theorem exists_passes_of_pair (h : k.expect [p, q] = some l) : ∃ c m d,
    (k.Passes [c] m ∧ p c = true) ∧ m.Passes [d] l ∧ q d = true := by
  obtain ⟨cs, hcs, hp⟩ := exists_passes_of_expect h
  cases hp with
  | @cons c _ ds _ hc hp =>
    cases hp with
    | @cons d _ _ _ hd hp =>
      cases hp
      obtain ⟨m, hm, hl⟩ := hcs.uncons
      exact ⟨c, m, d, ⟨hm, hc⟩, hl, hd⟩

theorem Passes.byte_eq {c : Char} (h : k.Passes [c] l) (hc : c.utf8Size = 1) :
    l.byte = k.byte + 1 := by
  rw [h.byte, byteLength_cons, byteLength_nil, hc]

end AnySpans.Text.Cursor

namespace AnySpans.Vue

open AnySpans.Text AnySpans.Text.Cursor

variable {text : List Char} {k after : Cursor} {e : Expression}

/-! ### Delimiters -/

/-- The characters that can stand around an expression. -/
def IsDelimiter (c : Char) : Prop :=
  c ∈ ['=', '"', '\'', '\x7b', '\x7d', ' ', '\t', '>', '/']

theorem IsDelimiter.utf8Size {c : Char} (h : IsDelimiter c) : c.utf8Size = 1 := by
  simp only [IsDelimiter, List.mem_cons, List.not_mem_nil, or_false] at h
  rcases h with rfl | rfl | rfl | rfl | rfl | rfl | rfl | rfl | rfl <;> rfl

/-- An expression stands in a text between its delimiters. -/
structure Expression.Stands (text : List Char) (e : Expression) : Prop where
  opens : StandsAt text e.region.start IsDelimiter
  quotes : ∃ i, e.body.start = i + 1 ∧ e.region.start < i ∧ StandsAt text i IsDelimiter
  ordered : e.body.start ≤ e.body.stop
  closes : StandsAt text e.body.stop IsDelimiter
  stop : e.region.stop = if e.terminated then e.body.stop + 2 else e.body.stop + 1
  ends : e.terminated = true → StandsAt text (e.body.stop + 1) IsDelimiter
  loop : ∀ i, e.loopWord = some i → (e.body.start ≤ i ∧ i + 2 ≤ e.body.stop) ∧
    StandsAt text i (· = 'o') ∧ StandsAt text (i + 1) (· = 'f')

theorem Expression.Stands.stop_bounds (h : e.Stands text) :
    e.body.stop + 1 ≤ e.region.stop ∧ e.region.stop ≤ e.body.stop + 2 := by
  have := h.stop
  split at this <;> omega

theorem Expression.Stands.start_lt_stop (h : e.Stands text) : e.region.start < e.region.stop := by
  obtain ⟨i, hi, hlt, -⟩ := h.quotes
  have := h.ordered
  have := h.stop_bounds
  omega

/-- No byte of the body is a delimiter. -/
theorem Expression.Stands.mem_body (h : e.Stands text) {i : Nat} (hi : i ∈ e.body) :
    i ∈ e.region ∧ i ≠ e.region.start ∧ i + 1 ≠ e.body.start ∧ i ≠ e.body.stop ∧
      ¬ (e.terminated = true ∧ i + 1 = e.region.stop) := by
  obtain ⟨q, hq, hlt, -⟩ := h.quotes
  obtain ⟨hstart, hend⟩ := e.body.mem_iff.1 hi
  have := h.stop_bounds
  refine ⟨e.region.mem_iff.2 (by omega), by omega, by omega, by omega, ?_⟩
  rintro ⟨hterminated, hlast⟩
  have hstop := h.stop
  rw [if_pos hterminated] at hstop
  omega

/-! ### Interpolations -/

theorem interpolation_eq_some {inner : List Char} (h : interpolation k = some ((e, inner), after)) :
    (∃ cs, k.Passes cs after) ∧ ∀ text, k.In text → e.Stands text := by
  obtain ⟨start, hopen, h⟩ := Option.bind_eq_some_iff.1 h
  obtain ⟨⟨stop, after'⟩, hfind, h⟩ := Option.bind_eq_some_iff.1 h
  cases h
  obtain ⟨c₁, m, c₂, ⟨hm, hc₁⟩, hstart, hc₂⟩ := exists_passes_of_pair hopen
  obtain ⟨⟨cs, hcs⟩, hclose⟩ := exists_passes_of_find hfind
  obtain ⟨c₃, n, c₄, ⟨hn, hc₃⟩, hafter, hc₄⟩ := exists_passes_of_pair hclose
  have hdelimiter : IsDelimiter '\x7b' ∧ IsDelimiter '\x7d' := by simp [IsDelimiter]
  rw [eq_of_beq hc₁] at hm
  rw [eq_of_beq hc₂] at hstart
  rw [eq_of_beq hc₃] at hn
  rw [eq_of_beq hc₄] at hafter
  have hkm := hm.byte_eq rfl
  have hms := hstart.byte_eq rfl
  have hss := hcs.byte
  have hsn := hn.byte_eq rfl
  have hna := hafter.byte_eq rfl
  refine ⟨⟨_, (((hm.trans hstart).trans hcs).trans hn).trans hafter⟩, fun text hk => ?_⟩
  have hinm := hk.passes hm
  have hinstop := (hinm.passes hstart).passes hcs
  refine ⟨hk.standsAt hm hdelimiter.1, ⟨m.byte, hms, ?_, hinm.standsAt hstart hdelimiter.1⟩, ?_,
    hinstop.standsAt hn hdelimiter.2, ?_, fun _ => ?_, nofun⟩
  · show k.byte < m.byte
    omega
  · show start.byte ≤ stop.byte
    omega
  · show after.byte = stop.byte + 2
    omega
  · show StandsAt text (stop.byte + 1) IsDelimiter
    rw [← hsn]
    exact (hinstop.passes hn).standsAt hafter hdelimiter.2

/-! ### Directives -/

theorem exists_passes_of_directiveName (h : directiveName k = some after) :
    ∃ cs, k.Passes cs after := by
  obtain ⟨m, hm, hrun⟩ := Option.bind_eq_some_iff.1 h
  obtain ⟨ds, hds⟩ := exists_passes_of_run hrun
  have hfirst : ∃ cs, k.Passes cs m := by
    cases hv : k.expect [(· == 'v'), (· == '-')] with
    | some n =>
      rw [hv] at hm
      cases hm
      obtain ⟨cs, hcs, -⟩ := exists_passes_of_expect hv
      exact ⟨cs, hcs⟩
    | none =>
      rw [hv] at hm
      obtain ⟨c, hc, -⟩ := exists_passes_of_one hm
      exact ⟨[c], hc⟩
  obtain ⟨cs, hcs⟩ := hfirst
  exact ⟨_, hcs.trans hds⟩

theorem exists_passes_of_enclosed {first last : Char} (h : enclosed first last k = some after) :
    ∃ cs, k.Passes cs after := by
  obtain ⟨m, hm, h⟩ := Option.bind_eq_some_iff.1 h
  obtain ⟨c, hc, -⟩ := exists_passes_of_one hm
  obtain ⟨cs, hcs⟩ := m.exists_passes_skipWhile (· != last)
  obtain ⟨d, hd, -⟩ := exists_passes_of_one h
  exact ⟨_, (hc.trans hcs).trans hd⟩

theorem exists_passes_of_mem_loopTargets {target : Cursor → Option Cursor}
    (ht : target ∈ loopTargets) (h : target k = some after) : ∃ cs, k.Passes cs after := by
  simp only [loopTargets, List.mem_cons, List.not_mem_nil, or_false] at ht
  obtain rfl | rfl | rfl | rfl := ht
  · exact exists_passes_of_enclosed h
  · exact exists_passes_of_run h
  · exact exists_passes_of_enclosed h
  · exact exists_passes_of_enclosed h

/-- The `of` of a loop stands in the loop. -/
theorem stands_of_loopWord {i : Nat} (hk : k.In text) (h : loopWord k = some i) :
    (k.byte ≤ i ∧ i + 2 ≤ k.byte + byteLength k.rest) ∧ StandsAt text i (· = 'o') ∧
      StandsAt text (i + 1) (· = 'f') := by
  obtain ⟨target, ht, h⟩ := List.exists_of_findSome?_eq_some h
  obtain ⟨m, hm, h⟩ := Option.bind_eq_some_iff.1 h
  obtain ⟨n, hn, h⟩ := Option.bind_eq_some_iff.1 h
  obtain ⟨l, hl, h⟩ := Option.bind_eq_some_iff.1 h
  obtain ⟨-, -, h⟩ := Option.bind_eq_some_iff.1 h
  cases h
  obtain ⟨cs₁, hcs₁⟩ := k.exists_passes_skipWhile isSpace
  obtain ⟨cs₂, hcs₂⟩ := exists_passes_of_mem_loopTargets ht hm
  obtain ⟨cs₃, hcs₃⟩ := exists_passes_of_run hn
  obtain ⟨c, o, d, ⟨ho, hc⟩, hf, hd⟩ := exists_passes_of_pair hl
  rw [eq_of_beq hc] at ho
  rw [eq_of_beq hd] at hf
  obtain ⟨before, hbefore⟩ : ∃ cs, k.Passes cs n := ⟨_, (hcs₁.trans hcs₂).trans hcs₃⟩
  have hinn := hk.passes hbefore
  have hno := ho.byte_eq rfl
  have hbyte := hbefore.byte
  refine ⟨⟨by omega, ?_⟩, hinn.standsAt ho rfl, ?_⟩
  · rw [hbefore.rest, ho.rest, hf.rest]
    simp only [byteLength_append, byteLength_cons, byteLength_nil]
    have : 'o'.utf8Size = 1 ∧ 'f'.utf8Size = 1 := ⟨rfl, rfl⟩
    omega
  · rw [← hno]
    exact (hinn.passes ho).standsAt hf rfl

theorem isDelimiter_of_isQuote {quote : Char} (h : (quote == '"' || quote == '\'') = true) :
    IsDelimiter quote := by
  rcases Bool.or_eq_true_iff.1 h with h | h <;> rw [eq_of_beq h] <;> simp [IsDelimiter]

/-- What makes room for a terminator is a delimiter. -/
theorem standsAt_terminator (hk : k.In text)
    (h : (k.rest.head?.any fun c => c == ' ' || c == '\t' || c == '>' || c == '/') = true) :
    StandsAt text k.byte IsDelimiter := by
  cases hrest : k.rest with
  | nil =>
    rw [hrest] at h
    cases h
  | cons c cs =>
    rw [hrest] at h
    refine hk.standsAt (l := ⟨k.byte + c.utf8Size, cs⟩) ⟨hrest, rfl⟩ ?_
    simp only [List.head?_cons, Option.any_some, Bool.or_eq_true, beq_iff_eq] at h
    rcases h with ((rfl | rfl) | rfl) | rfl <;> simp [IsDelimiter]

theorem directive_eq_some {inner : List Char} (h : directive k = some ((e, inner), after)) :
    (∃ cs, k.Passes cs after) ∧ ∀ text, k.In text → e.Stands text := by
  obtain ⟨name, hname, h⟩ := Option.bind_eq_some_iff.1 h
  obtain ⟨nameEnd, hnameEnd, h⟩ := Option.bind_eq_some_iff.1 h
  obtain ⟨k₁, hk₁, h⟩ := Option.bind_eq_some_iff.1 h
  obtain ⟨quote, hquote, h⟩ := Option.bind_eq_some_iff.1 h
  obtain ⟨start, hstart, h⟩ := Option.bind_eq_some_iff.1 h
  obtain ⟨after', hafter, h⟩ := Option.bind_eq_some_iff.1 h
  cases h
  obtain ⟨c₁, hc₁, -⟩ := exists_passes_of_one hname
  obtain ⟨cs₂, hcs₂⟩ := exists_passes_of_directiveName hnameEnd
  obtain ⟨cs₃, hcs₃⟩ := nameEnd.exists_passes_skipWhile isSpace
  obtain ⟨c₄, hc₄, hsign⟩ := exists_passes_of_one hk₁
  obtain ⟨gap, hgap⟩ := k₁.exists_passes_skipWhile isSpace
  obtain ⟨-, hisQuote⟩ := Option.filter_eq_some_iff.1 hquote
  obtain ⟨c₅, hc₅, hquote₁⟩ := exists_passes_of_one hstart
  obtain ⟨inner, hinner⟩ := start.exists_passes_skipWhile (· != quote)
  obtain ⟨c₆, hc₆, hquote₂⟩ := exists_passes_of_one hafter
  rw [eq_of_beq hsign] at hc₄
  rw [eq_of_beq hquote₁] at hc₅
  rw [eq_of_beq hquote₂] at hc₆
  have hdelimiter := isDelimiter_of_isQuote hisQuote
  have hequals : IsDelimiter '=' := by simp [IsDelimiter]
  obtain ⟨before, hbefore⟩ : ∃ cs, k.Passes cs (nameEnd.skipWhile isSpace) :=
    ⟨_, (hc₁.trans hcs₂).trans hcs₃⟩
  have h₁ := hc₄.byte_eq rfl
  have h₂ := hgap.byte
  have h₃ := hc₅.byte_eq hdelimiter.utf8Size
  have h₄ := hinner.byte
  have h₅ := hc₆.byte_eq hdelimiter.utf8Size
  refine ⟨⟨_, (((hbefore.trans hc₄).trans hgap).trans hc₅).trans (hinner.trans hc₆)⟩,
    fun text hk => ?_⟩
  have hinsign := hk.passes hbefore
  have hinquote := (hinsign.passes hc₄).passes hgap
  have hinstart := hinquote.passes hc₅
  have hinstop := hinstart.passes hinner
  have hinafter := hinstop.passes hc₆
  refine ⟨hinsign.standsAt hc₄ hequals, ⟨(k₁.skipWhile isSpace).byte, h₃, ?_,
    hinquote.standsAt hc₅ hdelimiter⟩, ?_, hinstop.standsAt hc₆ hdelimiter, ?_, fun hend => ?_,
    fun i hi => ?_⟩
  · show (nameEnd.skipWhile isSpace).byte < (k₁.skipWhile isSpace).byte
    omega
  · show start.byte ≤ (start.skipWhile (· != quote)).byte
    omega
  · dsimp only
    rw [h₅]
  · show StandsAt text ((start.skipWhile (· != quote)).byte + 1) IsDelimiter
    rw [← h₅]
    exact standsAt_terminator hinafter hend
  · dsimp only at hi
    split at hi
    · rw [hinner.textTo_eq] at hi
      obtain ⟨⟨hle, hlast⟩, hstands⟩ := stands_of_loopWord (hinstart.part hinner) hi
      exact ⟨⟨hle, hinner.byte ▸ hlast⟩, hstands⟩
    · cases hi

/-! ### Templates -/

theorem exists_passes_of_opening {name : String} {tag : Opening} (h : opening name k = some tag) :
    ∃ cs, k.Passes cs tag.after := by
  obtain ⟨start, hstart, h⟩ := Option.bind_eq_some_iff.1 h
  dsimp only at h
  split at h
  · cases h
  · obtain ⟨after, hafter, h⟩ := Option.bind_eq_some_iff.1 h
    cases h
    obtain ⟨cs, hcs, -⟩ := exists_passes_of_expect hstart
    obtain ⟨ds, hds⟩ := start.exists_passes_skipWhile (· != '>')
    obtain ⟨c, hc, -⟩ := exists_passes_of_one hafter
    exact ⟨_, (hcs.trans hds).trans hc⟩

theorem exists_passes_of_closing {name : String} (h : closing name k = some after) :
    ∃ cs, k.Passes cs after := by
  obtain ⟨start, hstart, h⟩ := Option.bind_eq_some_iff.1 h
  obtain ⟨cs, hcs, -⟩ := exists_passes_of_expect hstart
  obtain ⟨ds, hds⟩ := start.exists_passes_skipWhile isSpace
  obtain ⟨c, hc, -⟩ := exists_passes_of_one h
  exact ⟨_, (hcs.trans hds).trans hc⟩

theorem in_of_template? {source : Cursor} (h : template? text = some source) : source.In text := by
  obtain ⟨⟨k, start, stop⟩, hfind, h⟩ := Option.bind_eq_some_iff.1 h
  cases h
  obtain ⟨⟨cs, hcs⟩, h⟩ := exists_passes_of_find hfind
  obtain ⟨tag, htag, h⟩ := Option.bind_eq_some_iff.1 h
  obtain ⟨⟨stop', last⟩, hlast, h⟩ := Option.bind_eq_some_iff.1 h
  cases h
  obtain ⟨ds, hds⟩ := exists_passes_of_opening htag
  obtain ⟨⟨inner, hinner⟩, -⟩ := exists_passes_of_findLast hlast
  rw [hinner.textTo_eq]
  exact (((in_ofText text).passes hcs).passes hds).part hinner

theorem stands_of_mem_matchedExpressions {source : Cursor} (hs : source.In text)
    (he : e ∈ matchedExpressions source) : e.Stands text := by
  obtain ⟨⟨e, inner⟩, hmem, rfl⟩ := List.mem_map.1 he
  obtain hmem | hmem := List.mem_append.1 (List.mem_filter.1 hmem).1
  · obtain ⟨l, m, ⟨cs, hcs⟩, hl⟩ :=
      exists_passes_of_mem_all (fun _ _ _ h => (interpolation_eq_some h).1) hmem
    exact (interpolation_eq_some hl).2 text (hs.passes hcs)
  · obtain ⟨l, m, ⟨cs, hcs⟩, hl⟩ :=
      exists_passes_of_mem_all (fun _ _ _ h => (directive_eq_some h).1) hmem
    exact (directive_eq_some hl).2 text (hs.passes hcs)

/-- Expressions that come one after another without a common byte. -/
def Apart (es : List Expression) : Prop := es.Pairwise fun a b => a.region.stop ≤ b.region.start

/-- What is kept comes one after another. -/
theorem keepDisjoint_apart (stop : Nat) {es : List Expression} (hes : ∀ e ∈ es, e.Stands text) :
    Apart (keepDisjoint stop es) ∧
      ∀ e ∈ keepDisjoint stop es, e ∈ es ∧ stop ≤ e.region.start := by
  induction es generalizing stop with
  | nil => exact ⟨.nil, nofun⟩
  | cons d ds ih =>
    have ih := fun stop => ih stop fun e he => hes e (List.mem_cons_of_mem d he)
    rw [keepDisjoint]
    split
    · exact ⟨(ih stop).1, fun e he => ((ih stop).2 e he).imp_left (List.mem_cons_of_mem d)⟩
    · rename_i hstart
      obtain ⟨hapart, hmem⟩ := ih d.region.stop
      have hstop := (hes d List.mem_cons_self).start_lt_stop
      refine ⟨List.pairwise_cons.2 ⟨fun e he => (hmem e he).2, hapart⟩, fun e he => ?_⟩
      obtain rfl | he := List.mem_cons.1 he
      · exact ⟨List.mem_cons_self, Nat.not_lt.1 hstart⟩
      · obtain ⟨hds, hle⟩ := hmem e he
        exact ⟨List.mem_cons_of_mem d hds, by omega⟩

theorem templateExpressions_apart (text : List Char) :
    Apart (templateExpressions text) ∧ ∀ e ∈ templateExpressions text, e.Stands text := by
  unfold templateExpressions
  split
  · exact ⟨.nil, nofun⟩
  · rename_i source hsource
    have hstands : ∀ e ∈ (matchedExpressions source).mergeSort fun a b =>
        a.region.start ≤ b.region.start, e.Stands text := fun e he =>
      stands_of_mem_matchedExpressions (in_of_template? hsource) (List.mem_mergeSort.1 he)
    obtain ⟨hapart, hmem⟩ := keepDisjoint_apart 0 hstands
    exact ⟨hapart, fun e he => hstands e (hmem e he).1⟩

/-! ### Scripts -/

theorem scriptElement_eq_some {s : Element} (h : scriptElement k = some (s, after)) :
    (∃ cs, k.Passes cs after) ∧ s.body.start ≤ s.body.stop ∧
      ∀ text, k.In text → Boundary text s.body.start ∧ Boundary text s.body.stop := by
  obtain ⟨tag, htag, h⟩ := Option.bind_eq_some_iff.1 h
  obtain ⟨⟨stop, last⟩, hfind, h⟩ := Option.bind_eq_some_iff.1 h
  cases h
  obtain ⟨cs, hcs⟩ := exists_passes_of_opening htag
  obtain ⟨⟨ds, hds⟩, hclose⟩ := exists_passes_of_find hfind
  obtain ⟨es, hes⟩ := exists_passes_of_closing hclose
  refine ⟨⟨_, (hcs.trans hds).trans hes⟩, ?_, fun text hk => ?_⟩
  · show tag.after.byte ≤ stop.byte
    rw [hds.byte]
    exact Nat.le_add_right _ _
  · exact ⟨(hk.passes hcs).boundary, ((hk.passes hcs).passes hds).boundary⟩

theorem boundaries_of_mem_scriptBlocks {s : Span} (h : s ∈ scriptBlocks text) :
    s.start ≤ s.stop ∧ Boundary text s.start ∧ Boundary text s.stop := by
  obtain ⟨el, hel, rfl⟩ := List.mem_map.1 h
  obtain ⟨l, m, ⟨cs, hcs⟩, hl⟩ := exists_passes_of_mem_all
    (fun _ _ _ h => (scriptElement_eq_some h).1) (List.mem_filter.1 hel).1
  obtain ⟨-, hle, hboundaries⟩ := scriptElement_eq_some hl
  exact ⟨hle, hboundaries text ((in_ofText text).passes hcs)⟩

end AnySpans.Vue
