import AnySpans.Passes.Analyzer
import AnySpans.Proofs.Walk

/-!
# What a fan-out finds

The questions of a pass are the wanted ranges, each once (`exists_questions_iff`).  A fan-out
`Tracks` the wanted ranges as long as each of them waits, is being asked about, or was asked about
and is among the hits if its answer tells of type `any`.  When nothing waits and no question is open,
the hits are the wanted ranges of that type (`Fanout.Tracks.mem_hits_iff`).
-/

namespace AnySpans.Text.Range

variable {a b c : Range}

/-- The order of ranges compares the four coordinates one after another. -/
theorem isLE_order_iff : (a.order b).isLE = true ↔
    a.start.line < b.start.line ∨ a.start.line = b.start.line ∧
      (a.start.character < b.start.character ∨ a.start.character = b.start.character ∧
        (a.stop.line < b.stop.line ∨ a.stop.line = b.stop.line ∧
          a.stop.character ≤ b.stop.character)) := by
  simp only [order, Position.order, Ordering.isLE_then_iff_or, Ordering.then_eq_lt,
    Ordering.then_eq_eq, Nat.compare_eq_lt, Nat.compare_eq_eq, Nat.isLE_compare]
  omega

theorem order_trans (h : (a.order b).isLE = true) (h' : (b.order c).isLE = true) :
    (a.order c).isLE = true := by
  rw [isLE_order_iff] at *
  omega

theorem order_total (a b : Range) : ((a.order b).isLE || (b.order a).isLE) = true := by
  rw [Bool.or_eq_true, isLE_order_iff, isLE_order_iff]
  omega

theorem order_antisymm (h : (a.order b).isLE = true) (h' : (b.order a).isLE = true) : a = b := by
  rw [isLE_order_iff] at h h'
  obtain ⟨⟨l, c⟩, ⟨l', c'⟩⟩ := a
  obtain ⟨⟨m, d⟩, ⟨m', d'⟩⟩ := b
  simp only [mk.injEq, Position.mk.injEq]
  dsimp only at h h'
  omega

end AnySpans.Text.Range

namespace AnySpans.Passes

open AnySpans.Lines AnySpans.Signature AnySpans.Syntax AnySpans.Text

/-! ### The questions of a pass -/

section

open questions

theorem mem_of_mem_after {r : Range} {c : Candidate} {cs : List Candidate} (h : c ∈ after r cs) :
    c ∈ cs := by
  induction cs generalizing r with
  | nil => exact h
  | cons d ds ih =>
    rw [after] at h
    split at h
    · exact List.mem_cons_of_mem d (ih h)
    · obtain rfl | h := List.mem_cons.1 h
      · exact List.mem_cons_self
      · exact List.mem_cons_of_mem d (ih h)

theorem exists_after_of_mem {r : Range} {c : Candidate} {cs : List Candidate} (h : c ∈ cs) :
    c.range = r ∨ ∃ d ∈ after r cs, d.range = c.range := by
  induction cs generalizing r with
  | nil => cases h
  | cons d ds ih =>
    rw [after]
    split
    · rename_i hd
      obtain rfl | h := List.mem_cons.1 h
      · exact .inl hd
      · exact ih h
    · refine .inr ?_
      obtain rfl | h := List.mem_cons.1 h
      · exact ⟨c, List.mem_cons_self, rfl⟩
      · obtain he | ⟨e, he, hrange⟩ := ih (r := d.range) h
        · exact ⟨d, List.mem_cons_self, he.symm⟩
        · exact ⟨e, List.mem_cons_of_mem d he, hrange⟩

/-- Leaving out candidates with the range of their predecessor keeps the ranges. -/
theorem exists_distinct_iff {r : Range} {cs : List Candidate} :
    (∃ c ∈ distinct cs, c.range = r) ↔ ∃ c ∈ cs, c.range = r := by
  cases cs with
  | nil => rfl
  | cons d ds =>
    rw [distinct]
    constructor
    · rintro ⟨c, hc, hr⟩
      obtain rfl | hc := List.mem_cons.1 hc
      · exact ⟨c, List.mem_cons_self, hr⟩
      · exact ⟨c, List.mem_cons_of_mem d (mem_of_mem_after hc), hr⟩
    · rintro ⟨c, hc, rfl⟩
      obtain rfl | hc := List.mem_cons.1 hc
      · exact ⟨c, List.mem_cons_self, rfl⟩
      · obtain hd | ⟨e, he, hrange⟩ := exists_after_of_mem (r := d.range) hc
        · exact ⟨d, List.mem_cons_self, hd.symm⟩
        · exact ⟨e, List.mem_cons_of_mem d he, hrange⟩

/-- In ascending order, leaving out candidates with the range of their predecessor leaves each range
once, and not at all the range before them. -/
theorem nodup_after {r : Range} {cs : List Candidate}
    (hs : cs.Pairwise fun c d => (c.range.order d.range).isLE = true)
    (hr : ∀ c ∈ cs, (r.order c.range).isLE = true) :
    ((after r cs).map Candidate.range).Nodup ∧ ∀ c ∈ after r cs, c.range ≠ r := by
  induction cs generalizing r with
  | nil => exact ⟨.nil, nofun⟩
  | cons d ds ih =>
    obtain ⟨hd, hs⟩ := List.pairwise_cons.1 hs
    rw [after]
    split
    · exact ih hs fun c hc => hr c (List.mem_cons_of_mem d hc)
    · rename_i hne
      obtain ⟨hnd, hafter⟩ := ih hs hd
      refine ⟨List.nodup_cons.2 ⟨fun hmem => ?_, hnd⟩, fun c hc => ?_⟩
      · obtain ⟨c, hc, hrange⟩ := List.mem_map.1 hmem
        exact hafter c hc hrange
      · obtain rfl | hc := List.mem_cons.1 hc
        · exact hne
        · rintro rfl
          exact hne (Range.order_antisymm (hd c (mem_of_mem_after hc)) (hr d List.mem_cons_self))

theorem nodup_distinct {cs : List Candidate}
    (hs : cs.Pairwise fun c d => (c.range.order d.range).isLE = true) :
    ((distinct cs).map Candidate.range).Nodup := by
  cases cs with
  | nil => exact .nil
  | cons d ds =>
    obtain ⟨hd, hs⟩ := List.pairwise_cons.1 hs
    obtain ⟨hnd, hafter⟩ := nodup_after hs hd
    refine List.nodup_cons.2 ⟨fun hmem => ?_, hnd⟩
    obtain ⟨c, hc, hrange⟩ := List.mem_map.1 hmem
    exact hafter c hc hrange

end

/-- A pass asks about each range once. -/
theorem nodup_questions {t : Tree} {lines : IntervalSet} {cs : List Candidate}
    (h : questions t lines = .ok cs) : (cs.map Candidate.range).Nodup := by
  unfold questions at h
  cases hfound : findIdentifiers t (some lines) with
  | error f =>
    rw [hfound] at h
    cases h
  | ok part =>
    rw [hfound] at h
    obtain rfl := Except.ok.inj h
    have htrans : ∀ c d e : Candidate, (c.range.order d.range).isLE = true →
        (d.range.order e.range).isLE = true → (c.range.order e.range).isLE = true :=
      fun c d e => Range.order_trans
    exact nodup_distinct (List.pairwise_mergeSort htrans
      (fun c d => Range.order_total c.range d.range) _)

/-- A pass asks about the ranges of the identifiers of its tree that touch its lines. -/
theorem exists_questions_iff {t : Tree} {o : Outline} (h : t.Shaped o) (hl : t.Layered o.ids)
    (set : IntervalSet) :
    ∃ cs all, questions t set = .ok cs ∧ findIdentifiers t none = .ok all ∧
      ∀ r, (∃ c ∈ cs, c.range = r) ↔ ∃ c ∈ all.candidates, c.range = r ∧ r.touches set = true := by
  obtain ⟨part, all, hpart, hall, hfilter⟩ := findIdentifiers_touching h hl set
  refine ⟨_, all, by rw [questions, hpart]; rfl, hall, fun r => ?_⟩
  rw [exists_distinct_iff]
  simp only [List.mem_mergeSort, hfilter, List.mem_filter]
  constructor
  · rintro ⟨c, ⟨hc, ht⟩, rfl⟩
    exact ⟨c, hc, rfl, ht⟩
  · rintro ⟨c, hc, rfl, ht⟩
    exact ⟨c, ⟨hc, ht⟩, rfl⟩

/-! ### Following a fan-out -/

namespace Fanout

theorem map_candidate_numbered (cs : List Candidate) : (numbered cs).map Query.candidate = cs := by
  rw [numbered, List.map_map]
  exact List.zipIdx_map_fst 0 cs

theorem map_number_numbered (cs : List Candidate) :
    (numbered cs).map Query.number = List.range' 0 cs.length := by
  rw [numbered, List.map_map]
  exact List.zipIdx_map_snd 0 cs

/-- The questions that have no answer yet. -/
def pending (f : Fanout) : List Query := f.waiting ++ f.running

/-- A question that is asked goes from those that wait to those that are open. -/
theorem ask?_eq_some {f f' : Fanout} {q : Query} (h : f.ask? = some (q, f')) :
    f.waiting.length = f'.waiting.length + 1 ∧ f'.pending.Perm f.pending ∧
      f'.running = f.running ++ [q] ∧ f'.hits = f.hits ∧ f'.limit = f.limit := by
  unfold ask? at h
  split at h
  · rename_i q' qs hw
    split at h
    · cases h
      refine ⟨by rw [hw]; rfl, ?_, rfl, rfl, rfl⟩
      rw [pending, pending, hw, List.cons_append, ← List.append_assoc]
      exact List.perm_append_singleton q _
    · cases h
  · cases h

/-- An answer goes to an open question, which then is no longer open. -/
theorem answer?_eq_some {f f' : Fanout} {number : Nat} {a : Answer}
    (h : f.answer? number a = some f') : ∃ q, f.running? number = some q ∧
      f'.waiting = f.waiting ∧ f'.running.length < f.running.length := by
  obtain ⟨q, hq, rfl⟩ := Option.map_eq_some_iff.1 h
  refine ⟨q, hq, rfl, List.length_filter_lt_length_iff_exists.2
    ⟨q, List.mem_of_find?_eq_some hq, ?_⟩⟩
  have hnumber := List.find?_some hq
  simpa using hnumber

/-- The question that is asked is the first of those that wait, and there was room for it. -/
theorem waiting_of_ask? {f f' : Fanout} {q : Query} (h : f.ask? = some (q, f')) :
    f.waiting = q :: f'.waiting ∧ f.running.length < f.limit := by
  unfold ask? at h
  split at h
  · rename_i q' qs hw
    split at h
    · cases h
      exact ⟨hw, ‹_›⟩
    · cases h
  · cases h

theorem exists_ask? {f : Fanout} (hw : 0 < f.waiting.length) (hr : f.running.length < f.limit) :
    ∃ q f', f.ask? = some (q, f') := by
  obtain ⟨q, qs, hqs⟩ := List.exists_cons_of_length_pos hw
  rw [ask?, hqs]
  exact ⟨_, _, if_pos hr⟩

theorem skip?_eq_some {f f' : Fanout} (h : f.skip? = some f') :
    f.waiting.length = f'.waiting.length + 1 ∧ f'.running = f.running ∧ f'.limit = f.limit := by
  unfold skip? at h
  split at h
  · rename_i q qs hw
    obtain rfl := Option.some.inj h
    exact ⟨by rw [hw]; rfl, rfl, rfl⟩
  · cases h

/-- How many steps of the questions are still to come. -/
def load (f : Fanout) : Nat := 2 * f.waiting.length + f.running.length

theorem load_ask? {f f' : Fanout} {q : Query} (h : f.ask? = some (q, f')) :
    f'.load < f.load := by
  obtain ⟨hwaiting, -, hrunning, -, -⟩ := ask?_eq_some h
  simp only [load, hrunning, List.length_append, List.length_singleton]
  omega

theorem load_skip? {f f' : Fanout} (h : f.skip? = some f') : f'.load < f.load := by
  obtain ⟨hwaiting, hrunning, -⟩ := skip?_eq_some h
  simp only [load, hrunning]
  omega

theorem load_answer? {f f' : Fanout} {number : Nat} {a : Answer}
    (h : f.answer? number a = some f') : f'.load < f.load := by
  obtain ⟨q, -, hwaiting, hrunning⟩ := answer?_eq_some h
  simp only [load, hwaiting]
  omega

theorem limit_answer? {f f' : Fanout} {number : Nat} {a : Answer}
    (h : f.answer? number a = some f') : f'.limit = f.limit := by
  obtain ⟨q, -, rfl⟩ := Option.map_eq_some_iff.1 h
  rfl

/-- As long as not all is done, an answer can come or, if no question is open, the next one can be
asked or given up. -/
theorem exists_of_not_done {f : Fanout} (h : f.isDone = false) :
    (∃ number, ∀ a, ∃ f', f.answer? number a = some f') ∨
      f.running = [] ∧ ∃ q qs, f.waiting = q :: qs := by
  cases hr : f.running with
  | cons q qs =>
    refine .inl ⟨q.number, fun a => ?_⟩
    have hfound : f.running? q.number = some q := by
      rw [running?, hr]
      exact List.find?_cons_of_pos (beq_self_eq_true q.number)
    exact ⟨_, by rw [answer?, hfound, Option.map_some]⟩
  | nil =>
    refine .inr ⟨rfl, ?_⟩
    rw [isDone, hr, List.isEmpty_nil, Bool.and_true] at h
    exact List.exists_cons_of_ne_nil fun hw => by rw [hw] at h; cases h

/-- An open question that is answered is no longer pending. -/
theorem pending_perm {f : Fanout} (h : (f.pending.map Query.number).Nodup) {q : Query}
    (hq : q ∈ f.running) :
    f.pending.Perm (q :: (f.waiting ++ f.running.filter fun r => r.number != q.number)) := by
  have hnd : f.running.Nodup :=
    (h.of_map _).sublist (List.sublist_append_right f.waiting f.running)
  have hfilter : (f.running.filter fun r => r.number != q.number) = f.running.erase q := by
    rw [hnd.erase_eq_filter]
    refine List.filter_congr fun r hr => ?_
    have : r.number = q.number ↔ r = q := ⟨fun he => List.inj_on_of_nodup_map h
      (List.mem_append_right _ hr) (List.mem_append_right _ hq) he, congrArg _⟩
    simp [bne, this, beq_eq_decide]
  rw [hfilter, pending]
  exact ((List.perm_cons_erase hq).append_left f.waiting).trans List.perm_middle

/-- A fan-out is on its way to find which of the wanted ranges are of type `any` by the given
answers; `asked` tells of the positions that it asked about. -/
structure Tracks (wanted : Range → Prop) (answer : Position → Answer) (asked : Position → Prop)
    (f : Fanout) : Prop where
  numbers : (f.pending.map Query.number).Nodup
  pending : ∀ q ∈ f.pending, wanted q.candidate.range
  running : ∀ q ∈ f.running, asked q.candidate.position
  hits : ∀ r ∈ f.hits, wanted r ∧ (answer r.start).any isAnyType = true
  covered : ∀ r, wanted r → (∃ q ∈ f.pending, q.candidate.range = r) ∨
    asked r.start ∧ ((answer r.start).any isAnyType = true → r ∈ f.hits)

namespace Tracks

variable {wanted : Range → Prop} {answer : Position → Answer} {asked asked' : Position → Prop}
  {f f' : Fanout} {cs : List Candidate} {q : Query}

theorem start (limit : Nat) (h : ∀ r, (∃ c ∈ cs, c.range = r) ↔ wanted r) :
    (Fanout.start limit cs).Tracks wanted answer asked := by
  have hpending : (Fanout.start limit cs).pending = numbered cs := List.append_nil _
  have hmem : ∀ q, q ∈ numbered cs → q.candidate ∈ cs := by
    intro q hq
    obtain ⟨⟨c, n⟩, hc, rfl⟩ := List.mem_map.1 hq
    exact (List.mem_zipIdx hc).2.2 ▸ List.getElem_mem _
  refine ⟨?_, fun q hq => ?_, fun q hq => ?_, fun r hr => ?_, fun r hr => .inl ?_⟩
  · rw [hpending, map_number_numbered]
    exact List.nodup_range'
  · rw [hpending] at hq
    exact (h _).1 ⟨_, hmem q hq, rfl⟩
  · cases hq
  · cases hr
  · obtain ⟨c, hc, rfl⟩ := (h r).2 hr
    obtain ⟨n, hn⟩ := List.mem_iff_getElem?.1 hc
    refine ⟨⟨n, c⟩, ?_, rfl⟩
    rw [hpending]
    exact List.mem_map.2 ⟨(c, n), List.mem_zipIdx_iff_getElem?.2 hn, rfl⟩

/-- A question goes from those that wait to those that are open. -/
theorem ask? (h : f.Tracks wanted answer asked) (hf : f.ask? = some (q, f'))
    (hasked : ∀ p, asked p → asked' p) (hq : asked' q.candidate.position) :
    f'.Tracks wanted answer asked' := by
  obtain ⟨-, hperm, hrunning, hhits, -⟩ := ask?_eq_some hf
  refine ⟨(hperm.map _).nodup_iff.2 h.numbers, fun p hp => h.pending p (hperm.mem_iff.1 hp),
    fun p hp => ?_, hhits ▸ h.hits, fun r hr => ?_⟩
  · rw [hrunning] at hp
    obtain hp | hp := List.mem_append.1 hp
    · exact hasked _ (h.running p hp)
    · exact List.mem_singleton.1 hp ▸ hq
  · rw [hhits]
    obtain ⟨p, hp, hrange⟩ | ⟨ha, hhit⟩ := h.covered r hr
    · exact .inl ⟨p, hperm.mem_iff.2 hp, hrange⟩
    · exact .inr ⟨hasked _ ha, hhit⟩

/-- The answer to an open question settles its range. -/
theorem answer? (h : f.Tracks wanted answer asked) {number : Nat} (hq : f.running? number = some q) :
    ∃ f', f.answer? number (answer q.candidate.position) = some f' ∧
      f'.Tracks wanted answer asked := by
  obtain rfl : q.number = number := by simpa using List.find?_some hq
  have hmem : q ∈ f.running := List.mem_of_find?_eq_some hq
  have hwanted := h.pending q (List.mem_append_right _ hmem)
  have hperm := pending_perm h.numbers hmem
  have hsub : ∀ p ∈ f.waiting ++ f.running.filter fun r => r.number != q.number,
      p ∈ f.pending := fun p hp => hperm.mem_iff.2 (List.mem_cons_of_mem q hp)
  have hkeep : ∀ p ∈ f.pending, p ≠ q → p ∈ f.waiting ++ f.running.filter fun r =>
      r.number != q.number := fun p hp hne =>
    (List.mem_cons.1 (hperm.mem_iff.1 hp)).resolve_left hne
  refine ⟨{ f with
      running := f.running.filter fun r => r.number != q.number
      hits := f.hits ++ q.hit (answer q.candidate.position) },
    by rw [Fanout.answer?, hq]; rfl, ?_, fun p hp => h.pending p (hsub p hp),
    fun p hp => h.running p (List.mem_filter.1 hp).1, fun r hr => ?_, fun r hr => ?_⟩
  · exact h.numbers.sublist (((List.Sublist.refl _).append List.filter_sublist).map _)
  · obtain hr | hr := List.mem_append.1 hr
    · exact h.hits r hr
    · unfold Query.hit at hr
      split at hr
      · rename_i hany
        obtain rfl := List.mem_singleton.1 hr
        exact ⟨hwanted, hany⟩
      · cases hr
  · have hself : (answer q.candidate.position).any isAnyType = true →
        q.candidate.range ∈ f.hits ++ q.hit (answer q.candidate.position) := by
      intro hany
      refine List.mem_append_right _ ?_
      rw [Query.hit, if_pos hany]
      exact List.mem_singleton_self _
    obtain ⟨p, hp, rfl⟩ | ⟨ha, hhit⟩ := h.covered r hr
    · by_cases hpq : p = q
      · exact .inr ⟨hpq ▸ h.running q hmem, hpq ▸ hself⟩
      · exact .inl ⟨p, hkeep p hp hpq, rfl⟩
    · exact .inr ⟨ha, fun hany => List.mem_append_left _ (hhit hany)⟩

theorem mono (h : f.Tracks wanted answer asked) (hasked : ∀ p, asked p → asked' p) :
    f.Tracks wanted answer asked' :=
  ⟨h.numbers, h.pending, fun q hq => hasked _ (h.running q hq), h.hits, fun r hr =>
    (h.covered r hr).imp_right fun ⟨ha, hhit⟩ => ⟨hasked _ ha, hhit⟩⟩

theorem pending_eq_nil (hdone : f.isDone = true) : f.pending = [] := by
  obtain ⟨hw, hr⟩ := Bool.and_eq_true_iff.1 hdone
  rw [Fanout.pending, List.isEmpty_iff.1 hw, List.isEmpty_iff.1 hr, List.append_nil]

/-- In the end all wanted ranges were asked about. -/
theorem asked_of_isDone (h : f.Tracks wanted answer asked) (hdone : f.isDone = true) {r : Range}
    (hr : wanted r) : asked r.start := by
  obtain ⟨q, hq, -⟩ | ⟨ha, -⟩ := h.covered r hr
  · rw [pending_eq_nil hdone] at hq
    cases hq
  · exact ha

/-- In the end the hits are the wanted ranges of type `any`. -/
theorem mem_hits_iff (h : f.Tracks wanted answer asked) (hdone : f.isDone = true) (r : Range) :
    r ∈ f.hits ↔ wanted r ∧ (answer r.start).any isAnyType = true := by
  refine ⟨h.hits r, fun ⟨hr, hany⟩ => ?_⟩
  obtain ⟨q, hq, -⟩ | ⟨-, hhit⟩ := h.covered r hr
  · rw [pending_eq_nil hdone] at hq
    cases hq
  · exact hhit hany

end Tracks

/-! ### Counting -/

/-- Each of some candidates either has no answer yet or has settled once; the hits are those that
settled with type `any`. -/
structure Settles (answer : Position → Answer) (cs : List Candidate) (f : Fanout) : Prop where
  room : 0 < f.limit
  numbers : (f.pending.map Query.number).Nodup
  settled : ∃ ds : List Candidate, (ds ++ f.pending.map Query.candidate).Perm cs ∧
    f.hits.Perm ((ds.filter fun c => (answer c.position).any isAnyType).map Candidate.range)

namespace Settles

variable {answer : Position → Answer} {f f' : Fanout} {cs : List Candidate} {q : Query}

theorem start (answer : Position → Answer) (limit : Nat) (cs : List Candidate) :
    (Fanout.start limit cs).Settles answer cs := by
  have hpending : (Fanout.start limit cs).pending = numbered cs := List.append_nil _
  refine ⟨Nat.lt_of_lt_of_le Nat.zero_lt_one (Nat.le_max_right limit 1), ?_, [], ?_, .refl _⟩
  · rw [hpending, map_number_numbered]
    exact List.nodup_range'
  · rw [hpending, List.nil_append, map_candidate_numbered]

theorem ask? (h : f.Settles answer cs) (hf : f.ask? = some (q, f')) : f'.Settles answer cs := by
  obtain ⟨-, hperm, -, hhits, hlimit⟩ := ask?_eq_some hf
  obtain ⟨ds, hds, hfound⟩ := h.settled
  refine ⟨hlimit ▸ h.room, (hperm.map _).nodup_iff.2 h.numbers, ds, ?_, hhits ▸ hfound⟩
  exact ((hperm.map _).append_left ds).trans hds

theorem answer? (h : f.Settles answer cs) {number : Nat} (hq : f.running? number = some q)
    (hf : f.answer? number (answer q.candidate.position) = some f') : f'.Settles answer cs := by
  obtain rfl : q.number = number := by simpa using List.find?_some hq
  have hperm := pending_perm h.numbers (List.mem_of_find?_eq_some hq)
  rw [Fanout.answer?, hq] at hf
  obtain rfl := Option.some.inj hf
  obtain ⟨ds, hds, hfound⟩ := h.settled
  refine ⟨h.room, ?_, q.candidate :: ds, ?_, ?_⟩
  · exact (List.nodup_cons.1 ((hperm.map _).nodup_iff.1 h.numbers)).2
  · refine List.Perm.trans ?_ hds
    exact List.perm_middle.symm.trans ((hperm.symm.map Query.candidate).append_left ds)
  · show (f.hits ++ q.hit (answer q.candidate.position)).Perm _
    unfold Query.hit
    rw [List.filter_cons]
    split
    · exact (List.perm_append_singleton _ _).trans (hfound.cons _)
    · rw [List.append_nil]
      exact hfound

/-- In the end the hits are the candidates of type `any`, each as often as it was a candidate. -/
theorem hits_perm (h : f.Settles answer cs) (hdone : f.isDone = true) :
    f.hits.Perm ((cs.filter fun c => (answer c.position).any isAnyType).map Candidate.range) := by
  obtain ⟨ds, hds, hfound⟩ := h.settled
  rw [Tracks.pending_eq_nil hdone, List.map_nil, List.append_nil] at hds
  exact hfound.trans ((hds.filter _).map _)

end Settles

end Fanout

end AnySpans.Passes
