import AnySpans.Proofs.Paging
import AnySpans.Proofs.Schedules

/-!
# Passes whose questions are answered

A source is reliable (`Source.Reliable`) if what comes of each question, in whatever order the
questions are looked at, is an answer given beforehand: the source finds it, or it is that there is
none and the question is given up when its time has come.  A pass that alone asks such a source
(`Errand.Asking`) puts its questions in order and each once, has no more of them open than it may,
and finds what the answers tell (`Errand.Asking.move`).
-/

namespace AnySpans.Passes

open AnySpans.Documents AnySpans.Signature AnySpans.Syntax AnySpans.Text

/-- A question that is open: which it is, where it was put, and when. -/
structure Posed where
  call : Call
  position : Position
  since : Nat

/-- A source that answers questions about a document in a given way.  `inv` tells which questions are
open in a state at a time, and how many more can be put; `load` bounds what the source does by itself
while the clock stands still.  Where the source relies on patience, the clock does not go on before
the source has done everything it can. -/
structure Source.Reliable {σ : Type} (src : Source σ) (d : Snapshot) (timeout : Nat) (patient : Prop)
    (answer : Position → Answer) (inv : Nat → σ → Nat → List Posed → Prop) (load : σ → Nat → Nat) :
    Prop where
  ask {room : Nat} {x : σ} {now : Nat} {qs : List Posed} {c : Call} (at' : Position) :
    inv (room + 1) x now qs → (∀ q ∈ qs, q.call ≠ c) →
    inv room (src.ask x now c d at') now (qs ++ [⟨c, at', now⟩])
  found {room : Nat} {x x' : σ} {now : Nat} {qs : List Posed} {q : Posed} {a : Answer} :
    inv room x now qs → q ∈ qs → src.look x now q.call = (x', some a) →
    a = answer q.position ∧ inv room x' now (qs.filter fun r => r.call ≠ q.call)
  pending {room : Nat} {x x' : σ} {now : Nat} {qs : List Posed} {q : Posed} : inv room x now qs →
    q ∈ qs → src.look x now q.call = (x', none) → inv room x' now qs ∧ load x' now ≤ load x now
  late {room : Nat} {x x' : σ} {now : Nat} {qs : List Posed} {q : Posed} : inv room x now qs →
    q ∈ qs → src.look x now q.call = (x', none) → q.since + timeout ≤ now →
    answer q.position = none ∧
      inv room (src.forget x' q.call) now (qs.filter fun r => r.call ≠ q.call)
  work {room : Nat} {x x' : σ} {now : Nat} {qs : List Posed} {calls : List Call} :
    inv room x now qs → src.work x now = some (x', calls) →
    inv room x' now qs ∧ load x' now < load x now ∧ ∀ c ∈ calls, ∃ q ∈ qs, q.call = c
  rest {room : Nat} {x : σ} {now : Nat} {qs : List Posed} {time : Nat} : inv room x now qs →
    src.work x now = none → src.due x = some time → now < time
  wait {room : Nat} {x : σ} {now time : Nat} {qs : List Posed} : inv room x now qs → now < time →
    (∀ t, src.due x = some t → time ≤ t) → (∀ q ∈ qs, time ≤ q.since + timeout) →
    (patient → src.work x now = none) → inv room x time qs

/-- What a pass has to ask about a document, how it is answered, and what was asked before. -/
structure Errand where
  pass : Nat
  document : Snapshot
  candidates : List Candidate
  limit : Nat
  timeout : Nat
  answer : Position → Answer
  before : List Asked

namespace Schedule

variable {σ : Type}

/-- The clock goes on punctually and, where patience is asked for, only when the source can do nothing
more. -/
def Waits (src : Source σ) (patient : Prop) (s : Schedule σ) (time : Nat) : Prop :=
  s.Punctual src time ∧ (patient → src.work s.source s.now = none)

theorem exists_due_le (src : Source σ) (s : Schedule σ) {t : Nat}
    (h : t ∈ (src.due s.source).toList ++ s.deadlines.map (·.2)) :
    ∃ m, s.due src = some m ∧ m ≤ t := by
  cases hm : s.due src with
  | none =>
    rw [due, List.min?_eq_none_iff] at hm
    rw [hm] at h
    cases h
  | some m => exact ⟨m, rfl, (List.min?_eq_some_iff.1 hm).2 t h⟩

end Schedule

namespace Errand

variable {σ : Type} {inv : Nat → σ → Nat → List Posed → Prop} {load : σ → Nat → Nat} {src : Source σ}
  {patient : Prop} {i : Errand} {s s' : Schedule σ} {k : Work} {e : Option Event} {c : Call}
  {w : World} {p : Nat}

/-- All passes but one have ended. -/
def Alone (p : Nat) (w : World) : Prop :=
  ∀ j st, j ≠ p → w.passes[j]? = some st → st.isDone = true

theorem Alone.set {w' : World} {st st' : Stage} (h : Alone p w) (hp : w.passes[p]? = some st)
    (hw : w'.passes = w.passes.set p st') : Alone p w' := by
  intro j st'' hj hst
  rw [hw, World.getElem?_set_stage hp, if_neg hj.symm] at hst
  exact h j st'' hj hst

/-- What was asked when the first `n` candidates were asked about, the latest first. -/
def asked (i : Errand) (n : Nat) : List Asked :=
  ((i.candidates.take n).map fun c => ⟨i.pass, i.document, c.position⟩).reverse ++ i.before

/-- The open questions of a pass are those that the source knows and that have deadlines. -/
structure Posing (i : Errand) (inv : Nat → σ → Nat → List Posed → Prop) (s : Schedule σ) (f : Fanout)
    (qs : List Posed) : Prop where
  calls : (qs.map fun r => (r.call, r.position)) =
    f.running.map fun q => (⟨i.pass, q.number⟩, q.candidate.position)
  deadlines : s.deadlines = qs.map fun r => (r.call, r.since + i.timeout)
  known : inv f.waiting.length s.source s.now qs

/-- A pass is asking, and no other one is. -/
structure Asking (i : Errand) (inv : Nat → σ → Nat → List Posed → Prop) (s : Schedule σ) (k : Work) :
    Prop where
  stage : s.world.passes[i.pass]? = some (.asking k)
  live : s.world.isCancelled k = false
  alone : Alone i.pass s.world
  document : k.request.document = i.document
  timeout : k.timeout = i.timeout
  settles : k.fan.Settles i.answer i.candidates
  limit : k.fan.limit = i.limit
  bounded : k.fan.running.length ≤ i.limit
  /-- The questions that do not wait any more were asked in order, each once. -/
  asked : ∃ n, k.fan.waiting = (numbered i.candidates).drop n ∧ s.world.asked = i.asked n
  posing : ∃ qs, i.Posing inv s k.fan qs

/-- All passes have ended, and no question is open. -/
structure Over (inv : σ → Nat → List Posed → Prop) (s : Schedule σ) : Prop where
  done : ∀ (j : Nat) (st : Stage), s.world.passes[j]? = some st → st.isDone = true
  deadlines : s.deadlines = []
  known : inv s.source s.now []

/-! ### Open questions -/

namespace Posing

variable {f f' : Fanout} {qs : List Posed} {q : Query} {r : Posed} {number : Nat}

theorem exists_of_running (h : i.Posing inv s f qs) (hq : q ∈ f.running) :
    ∃ r ∈ qs, r.call = ⟨i.pass, q.number⟩ ∧ r.position = q.candidate.position := by
  have hmem : ((⟨i.pass, q.number⟩, q.candidate.position) : Call × Position) ∈
      qs.map fun r => (r.call, r.position) := h.calls ▸ List.mem_map_of_mem hq
  obtain ⟨r, hr, heq⟩ := List.mem_map.1 hmem
  obtain ⟨hcall, hposition⟩ := Prod.mk.inj heq
  exact ⟨r, hr, hcall, hposition⟩

theorem exists_running (h : i.Posing inv s f qs) (hr : r ∈ qs) :
    ∃ q ∈ f.running, r.call = ⟨i.pass, q.number⟩ ∧ r.position = q.candidate.position := by
  have hmem : (r.call, r.position) ∈
      f.running.map fun q => ((⟨i.pass, q.number⟩, q.candidate.position) : Call × Position) :=
    h.calls ▸ List.mem_map_of_mem (f := fun r : Posed => (r.call, r.position)) hr
  obtain ⟨q, hq, heq⟩ := List.mem_map.1 hmem
  exact ⟨q, hq, (Prod.mk.inj heq).1.symm, (Prod.mk.inj heq).2.symm⟩

theorem exists_of_running_call (h : i.Posing inv s f qs) (hpass : c.pass = i.pass)
    (hq : f.running? c.number = some q) : ∃ r ∈ qs, r.call = c ∧ r.position = q.candidate.position := by
  obtain ⟨r, hr, hcall, hposition⟩ := h.exists_of_running (List.mem_of_find?_eq_some hq)
  have hnumber : q.number = c.number := by simpa using List.find?_some hq
  exact ⟨r, hr, by rw [hcall, ← hpass, hnumber], hposition⟩

/-- Each question has one deadline. -/
theorem exists_of_deadline (h : i.Posing inv s f qs) {time : Nat} (hd : (c, time) ∈ s.deadlines) :
    ∃ r ∈ qs, r.call = c ∧ r.since + i.timeout = time := by
  rw [h.deadlines] at hd
  obtain ⟨r, hr, heq⟩ := List.mem_map.1 hd
  exact ⟨r, hr, (Prod.mk.inj heq).1, (Prod.mk.inj heq).2⟩

theorem eq_nil (h : i.Posing inv s f qs) (hf : f.isDone = true) : qs = [] := by
  have hcalls := h.calls
  rw [List.isEmpty_iff.1 (Bool.and_eq_true_iff.1 hf).2] at hcalls
  exact List.map_eq_nil_iff.1 hcalls

/-- A question that is put is known from then on. -/
theorem asked (h : i.Posing inv s f qs) (hf : f.ask? = some (q, f')) {x : σ} {w : World}
    (hknown : inv f'.waiting.length x s.now
      (qs ++ [⟨⟨i.pass, q.number⟩, q.candidate.position, s.now⟩])) :
    i.Posing inv { s with
      world := w
      source := x
      deadlines := s.deadlines ++ [(⟨i.pass, q.number⟩, s.now + i.timeout)] } f'
      (qs ++ [⟨⟨i.pass, q.number⟩, q.candidate.position, s.now⟩]) where
  calls := by
    obtain ⟨-, -, hrunning, -⟩ := Fanout.ask?_eq_some hf
    rw [hrunning, List.map_append, List.map_append, h.calls]
    rfl
  deadlines := by
    rw [List.map_append, ← h.deadlines]
    rfl
  known := hknown

/-- A question that is settled is forgotten. -/
theorem settled (h : i.Posing inv s f qs) {a : Answer} (hf : f.answer? number a = some f') {x : σ}
    {w : World} (hknown : inv f.waiting.length x s.now
      (qs.filter fun r => r.call ≠ ⟨i.pass, number⟩)) :
    i.Posing inv ({ s with world := w, source := x }.forgetDeadline ⟨i.pass, number⟩) f'
      (qs.filter fun r => r.call ≠ ⟨i.pass, number⟩) where
  calls := by
    obtain ⟨-, -, rfl⟩ := Option.map_eq_some_iff.1 hf
    have hfilter := congrArg (List.filter fun x => decide (x.1 ≠ ⟨i.pass, number⟩)) h.calls
    rw [List.filter_map, List.filter_map] at hfilter
    refine hfilter.trans (congrArg _ (List.filter_congr fun q _ => ?_))
    by_cases hq : q.number = number <;> simp [hq]
  deadlines := by
    show s.deadlines.filter _ = _
    rw [h.deadlines, List.filter_map]
    rfl
  known := by
    obtain ⟨-, -, hwaiting, -⟩ := Fanout.answer?_eq_some hf
    rw [hwaiting]
    exact hknown

/-- What the source finds is the given answer. -/
theorem found (h : i.Posing inv s f qs)
    (hsrc : src.Reliable i.document i.timeout patient i.answer inv load) (hpass : c.pass = i.pass)
    (hq : f.running? c.number = some q) {x : σ} {a : Answer}
    (hl : src.look s.source s.now c = (x, some a)) : a = i.answer q.candidate.position ∧
      inv f.waiting.length x s.now (qs.filter fun r => r.call ≠ c) := by
  obtain ⟨r, hr, rfl, hposition⟩ := h.exists_of_running_call hpass hq
  exact hposition ▸ hsrc.found h.known hr hl

end Posing

/-! ### Moves of a pass that asks -/

theorem advances {answer : Position → Answer} {e : Event} (hp : e.pass? = some p)
    (he : ∀ number a, e ≠ .answered p number a) : w.Advances answer p e :=
  ⟨hp, fun number a _ _ ha => absurd ha (he number a)⟩

theorem advances_answered {answer : Position → Answer} {q : Query} {number : Nat}
    (hp : w.passes[p]? = some (.asking k)) (hq : k.fan.running? number = some q) :
    w.Advances answer p (.answered p number (answer q.candidate.position)) where
  pass := rfl
  answered := by
    rintro number a k' q' ha hk' hq'
    cases ha
    obtain rfl := Stage.asking.inj (Option.some.inj (hp.symm.trans hk'))
    obtain rfl := Option.some.inj (hq.symm.trans hq')
    rfl

namespace Asking

theorem eq_pass (h : i.Asking inv s k) {st : Stage} (hp : s.world.passes[p]? = some st)
    (hst : st.isDone = false) : p = i.pass ∧ st = .asking k := by
  have heq : p = i.pass := by
    by_contra hne
    cases hst.symm.trans (h.alone p st hne hp)
  subst heq
  exact ⟨rfl, Option.some.inj (hp.symm.trans h.stage)⟩

/-- A pass goes on asking where neither the world nor a deadline changes. -/
theorem kept (h : i.Asking inv s k) {qs : List Posed} (hqs : i.Posing inv s k.fan qs)
    (hworld : s'.world = s.world) (hdeadlines : s'.deadlines = s.deadlines)
    (hknown : inv k.fan.waiting.length s'.source s'.now qs) : i.Asking inv s' k :=
  ⟨hworld ▸ h.stage, by rw [hworld]; exact h.live, hworld ▸ h.alone, h.document, h.timeout,
    h.settles, h.limit, h.bounded, hworld ▸ h.asked, qs, hqs.calls, hdeadlines.trans hqs.deadlines, hknown⟩

theorem alike (h : i.Asking inv s k) (ha : s.Alike s') : i.Asking inv s' k := by
  obtain ⟨qs, hqs⟩ := h.posing
  exact h.kept hqs ha.world ha.deadlines (by rw [ha.source, ha.now]; exact hqs.known)

theorem waited (h : i.Asking inv s k)
    (hsrc : src.Reliable i.document i.timeout patient i.answer inv load) {time : Nat}
    (ht : s.Waits src patient time) : i.Asking inv { s with now := time } k := by
  obtain ⟨⟨hle, hdue⟩, hpatient⟩ := ht
  obtain ⟨qs, hqs⟩ := h.posing
  refine h.kept hqs rfl rfl ?_
  obtain rfl | hlt := Nat.eq_or_lt_of_le hle
  · exact hqs.known
  · have hbound : ∀ t ∈ (src.due s.source).toList ++ s.deadlines.map (·.2), time ≤ t := by
      intro t ht
      obtain ⟨m, hm, hmt⟩ := Schedule.exists_due_le _ _ ht
      have := hdue m hm
      omega
    refine hsrc.wait hqs.known hlt (fun t ht => hbound t ?_) (fun r hr => hbound _ ?_) hpatient
    · exact List.mem_append_left _ (by rw [ht]; exact List.mem_singleton_self t)
    · refine List.mem_append_right _ (List.mem_map.2 ⟨(r.call, r.since + i.timeout), ?_, rfl⟩)
      rw [hqs.deadlines]
      exact List.mem_map_of_mem hr

theorem numbered_drop {cs : List Candidate} {n : Nat} {q : Query} {qs : List Query}
    (h : (numbered cs).drop n = q :: qs) :
    qs = (numbered cs).drop (n + 1) ∧ cs.take (n + 1) = cs.take n ++ [q.candidate] := by
  have htail : qs = (numbered cs).drop (n + 1) := by
    rw [← List.drop_drop, h]
    rfl
  refine ⟨htail, ?_⟩
  have hmap := congrArg (List.map Query.candidate) h
  rw [List.map_drop, Fanout.map_candidate_numbered, List.map_cons] at hmap
  rw [List.take_add_one]
  have hget : cs[n]? = some q.candidate := by
    rw [← List.head?_drop, hmap]
    rfl
  rw [hget]
  rfl

/-- Open questions have different numbers. -/
theorem eq_of_running? (h : i.Asking inv s k) {q q' : Query} {number : Nat}
    (hq : k.fan.running? number = some q) (hq' : q' ∈ k.fan.running) (hn : q'.number = number) :
    q' = q := by
  have hnumber : q.number = number := by simpa using List.find?_some hq
  exact List.inj_on_of_nodup_map h.settles.numbers (List.mem_append_right _ hq')
    (List.mem_append_right _ (List.mem_of_find?_eq_some hq)) (hn.trans hnumber.symm)

/-- The next question is put. -/
theorem ask (h : i.Asking inv s k)
    (hsrc : src.Reliable i.document i.timeout patient i.answer inv load) {q : Query} {fan : Fanout}
    (hf : k.fan.ask? = some (q, fan)) (hs : s.world.step? (.asked i.pass) = some w) :
    i.Asking inv { s with
      world := w
      source := src.ask s.source s.now ⟨i.pass, q.number⟩ k.request.document q.candidate.position
      deadlines := s.deadlines ++ [(⟨i.pass, q.number⟩, s.now + k.timeout)] } { k with fan } := by
  rw [World.step?_asked h.stage h.live, hf] at hs
  obtain rfl := Option.some.inj hs
  obtain ⟨-, -, hrunning, -, hlimit⟩ := Fanout.ask?_eq_some hf
  obtain ⟨hwaiting, hroom⟩ := Fanout.waiting_of_ask? hf
  obtain ⟨n, hn, hasked⟩ := h.asked
  obtain ⟨qs, hqs⟩ := h.posing
  refine ⟨World.getElem?_set_self h.stage _, h.live, h.alone.set h.stage rfl, h.document, h.timeout,
    h.settles.ask? hf, hlimit.trans h.limit, ?_, ⟨n + 1, ?_, ?_⟩, ?_⟩
  · rw [hrunning, List.length_append, ← h.limit]
    exact hroom
  · exact (numbered_drop (hn.symm.trans hwaiting)).1
  · show (⟨i.pass, k.request.document, q.candidate.position⟩ : Asked) :: s.world.asked = _
    rw [Errand.asked, (numbered_drop (hn.symm.trans hwaiting)).2, List.map_append,
      List.reverse_append, h.document, hasked]
    rfl
  · have hfresh : ∀ r ∈ qs, r.call ≠ ⟨i.pass, q.number⟩ := by
      intro r hr heq
      obtain ⟨q', hq', hcall, -⟩ := hqs.exists_running hr
      have hnumber : q'.number = q.number := (Call.mk.inj (hcall.symm.trans heq)).2
      have hnodup := h.settles.numbers
      rw [Fanout.pending, hwaiting, List.cons_append, List.map_cons, List.nodup_cons] at hnodup
      exact hnodup.1 (hnumber ▸ List.mem_map_of_mem (List.mem_append_right _ hq'))
    have hknown := hqs.known
    rw [hwaiting] at hknown
    rw [h.document, h.timeout]
    exact ⟨_, hqs.asked hf (hsrc.ask q.candidate.position hknown hfresh)⟩

/-- An open question is settled in the given way. -/
theorem settle (h : i.Asking inv s k) {q : Query} {number : Nat} {qs : List Posed} {x : σ}
    (hq : k.fan.running? number = some q) (hqs : i.Posing inv s k.fan qs)
    (hs : s.world.step? (.answered i.pass number (i.answer q.candidate.position)) = some w)
    (hknown : inv k.fan.waiting.length x s.now (qs.filter fun r => r.call ≠ ⟨i.pass, number⟩)) :
    ∃ fan, k.fan.answer? number (i.answer q.candidate.position) = some fan ∧
      i.Asking inv ({ s with world := w, source := x }.forgetDeadline ⟨i.pass, number⟩)
        { k with fan } := by
  have hf : k.fan.answer? number (i.answer q.candidate.position) = some
      { k.fan with
        running := k.fan.running.filter fun r => r.number != number
        hits := k.fan.hits ++ q.hit (i.answer q.candidate.position) } := by
    rw [Fanout.answer?, hq]
    rfl
  rw [World.step?_answered h.stage h.live, hf] at hs
  obtain rfl := Option.some.inj hs
  exact ⟨_, hf, World.getElem?_set_self h.stage _, h.live, h.alone.set h.stage rfl, h.document,
    h.timeout, h.settles.answer? hq hf, h.limit, (List.length_filter_le _ _).trans h.bounded, h.asked,
    _, hqs.settled hf hknown⟩

/-- What is given up is answered by nothing. -/
theorem late (h : i.Asking inv s k)
    (hsrc : src.Reliable i.document i.timeout patient i.answer inv load) {qs : List Posed}
    (hqs : i.Posing inv s k.fan qs) {q : Query} (hq : k.fan.running? c.number = some q) {x : σ}
    (hl : src.look s.source s.now c = (x, none)) {time : Nat}
    (hd : (c, time) ∈ s.deadlines) (ht : time ≤ s.now) :
    i.answer q.candidate.position = none ∧
      inv k.fan.waiting.length (src.forget x c) s.now (qs.filter fun r => r.call ≠ c) := by
  obtain ⟨r, hr, rfl, rfl⟩ := hqs.exists_of_deadline hd
  obtain ⟨q', hq', hcall, hposition⟩ := hqs.exists_running hr
  obtain rfl := h.eq_of_running? hq hq' (congrArg Call.number hcall).symm
  exact hposition ▸ hsrc.late hqs.known hr hl ht

/-- The pass ends. -/
theorem finish (h : i.Asking inv s k) (hs : s.world.Steps (.finished i.pass) w) :
    k.fan.isDone = true ∧ Over (inv 0) { s with world := w } ∧
      ∃ o, w.passes[i.pass]? = some (.done k.request (.outcome o)) := by
  have hover : ∀ {o : Outcome} {w' : World}, k.fan.isDone = true →
      w'.passes = s.world.passes.set i.pass (.done k.request (.outcome o)) →
      Over (inv 0) { s with world := w' } ∧
        ∃ o, w'.passes[i.pass]? = some (.done k.request (.outcome o)) := by
    intro o w' hdone hw
    have hself := World.getElem?_set_self h.stage (.done k.request (.outcome o))
    rw [← hw] at hself
    obtain ⟨qs, hqs⟩ := h.posing
    obtain rfl := hqs.eq_nil hdone
    have hknown := hqs.known
    rw [List.isEmpty_iff.1 (Bool.and_eq_true_iff.1 hdone).1] at hknown
    refine ⟨⟨fun j st hst => ?_, hqs.deadlines, hknown⟩, o, hself⟩
    by_cases hj : j = i.pass
    · rw [← hj] at hself
      obtain rfl := Option.some.inj (hself.symm.trans hst)
      rfl
    · exact h.alone.set h.stage hw j st hj hst
  cases hs with
  | stale hi hdone =>
    obtain ⟨-, hk⟩ := h.eq_pass hi rfl
    obtain rfl := Stage.asking.inj hk
    exact ⟨hdone, hover hdone rfl⟩
  | committed hi hdone =>
    obtain ⟨-, hk⟩ := h.eq_pass hi rfl
    obtain rfl := Stage.asking.inj hk
    exact ⟨hdone, hover hdone rfl⟩

/-- Whatever a move does, the pass goes on asking, or it has asked everything and ends; answers are as
given. -/
theorem move (h : i.Asking inv s k)
    (hsrc : src.Reliable i.document i.timeout patient i.answer inv load)
    (hm : Schedule.Moves src (Schedule.Waits src patient) s e s') :
    (∀ e', e = some e' → s.world.Advances i.answer i.pass e') ∧
      ((∃ fan, i.Asking inv s' { k with fan }) ∨
        e = some (.finished i.pass) ∧ k.fan.isDone = true ∧ Over (inv 0) s') := by
  obtain ⟨qs, hqs⟩ := h.posing
  cases hm with
  | arranged ready items most => exact ⟨nofun, .inl ⟨k.fan, h.kept hqs rfl rfl hqs.known⟩⟩
  | waited ht => exact ⟨nofun, .inl ⟨k.fan, h.waited hsrc ht⟩⟩
  | worked hwork => exact ⟨nofun, .inl ⟨k.fan, h.kept hqs rfl rfl (hsrc.work hqs.known hwork).1⟩⟩
  | @stepped e' p w hp hc hs =>
    have hsteps := World.steps_of_step? hs
    cases e' with
    | begun =>
      cases hsteps with
      | begun hi =>
        obtain ⟨-, hst⟩ := h.eq_pass hi rfl
        cases hst
    | skipped =>
      cases hsteps with
      | skipped hi hc' =>
        obtain ⟨rfl, hst⟩ := h.eq_pass hi rfl
        obtain rfl := Stage.asking.inj hst
        cases h.live.symm.trans hc'
    | finished j =>
      obtain rfl : j = i.pass := by
        cases hsteps with
        | stale hi | committed hi => exact (h.eq_pass hi rfl).1
      obtain ⟨hdone, hover, -⟩ := h.finish hsteps
      exact ⟨fun e' he => Option.some.inj he ▸ advances rfl nofun, .inr ⟨rfl, hdone, hover⟩⟩
    | asked | answered | dropped => cases hc
    | _ => cases hp
  | asked hp hc hf hs =>
    obtain ⟨rfl, hst⟩ := h.eq_pass hp rfl
    obtain rfl := Stage.asking.inj hst
    exact ⟨fun e' he => Option.some.inj he ▸ advances rfl nofun, .inl ⟨_, h.ask hsrc hf hs⟩⟩
  | @looked c k' q x hp hq hl =>
    obtain ⟨hpass, hst⟩ := h.eq_pass hp rfl
    obtain rfl := Stage.asking.inj hst
    obtain ⟨r, hr, hcall, -⟩ := hqs.exists_of_running_call hpass hq
    exact ⟨nofun, .inl ⟨_, h.kept hqs rfl rfl (hsrc.pending hqs.known hr (hcall ▸ hl)).1⟩⟩
  | @answered c k' q a x w hp hq hl hs =>
    obtain ⟨hpass, hst⟩ := h.eq_pass hp rfl
    obtain rfl := Stage.asking.inj hst
    obtain ⟨rfl, hknown⟩ := hqs.found hsrc hpass hq hl
    obtain ⟨pass, number⟩ := c
    obtain rfl := hpass
    obtain ⟨fan, -, hasking⟩ := h.settle hq hqs hs hknown
    exact ⟨fun e' he => Option.some.inj he ▸ advances_answered h.stage hq, .inl ⟨fan, hasking⟩⟩
  | @expired c k' q time x w hp hq hl hd ht hs =>
    obtain ⟨hpass, hst⟩ := h.eq_pass hp rfl
    obtain rfl := Stage.asking.inj hst
    obtain ⟨hnone, hknown⟩ := h.late hsrc hqs hq hl hd ht
    obtain ⟨pass, number⟩ := c
    obtain rfl := hpass
    rw [← hnone] at hs ⊢
    obtain ⟨fan, -, hasking⟩ := h.settle hq hqs hs hknown
    exact ⟨fun e' he => Option.some.inj he ▸ advances_answered h.stage hq, .inl ⟨fan, hasking⟩⟩
  | dropped hp hc hs =>
    obtain ⟨-, hst⟩ := h.eq_pass hp rfl
    obtain rfl := Stage.asking.inj hst
    cases h.live.symm.trans hc

end Asking

/-! ### Runs -/

/-- When all passes have ended, nothing happens any more but to the source and the clock. -/
theorem Over.move {d : Snapshot} {timeout room : Nat} {answer : Position → Answer}
    (h : Over (inv room) s) (hsrc : src.Reliable d timeout patient answer inv load)
    (hm : Schedule.Moves src (Schedule.Waits src patient) s e s') :
    e = none ∧ s'.world = s.world ∧ Over (inv room) s' := by
  have hkept : ∀ {s₁ : Schedule σ}, s₁.world = s.world → s₁.deadlines = s.deadlines →
      inv room s₁.source s₁.now [] → Over (inv room) s₁ := fun hworld hdeadlines hknown =>
    ⟨hworld ▸ h.done, hdeadlines.trans h.deadlines, hknown⟩
  have hdone : ∀ {j : Nat} {st : Stage}, s.world.passes[j]? = some st → st.isDone = false →
      False := fun hp hst => by cases hst.symm.trans (h.done _ _ hp)
  cases hm with
  | arranged ready items most => exact ⟨rfl, rfl, hkept rfl rfl h.known⟩
  | @waited time ht =>
    refine ⟨rfl, rfl, hkept rfl rfl ?_⟩
    obtain ⟨⟨hle, hdue⟩, hpatient⟩ := ht
    obtain rfl | hlt := Nat.eq_or_lt_of_le hle
    · exact h.known
    · refine hsrc.wait h.known hlt (fun t ht => ?_) (fun _ hr => absurd hr List.not_mem_nil) hpatient
      obtain ⟨m, hm, hmt⟩ := Schedule.exists_due_le src s (t := t)
        (List.mem_append_left _ (by rw [ht]; exact List.mem_singleton_self t))
      have := hdue m hm
      show time ≤ t
      omega
  | worked hwork => exact ⟨rfl, rfl, hkept rfl rfl (hsrc.work h.known hwork).1⟩
  | @stepped e' p w hp hc hs =>
    exfalso
    have hsteps := World.steps_of_step? hs
    cases hsteps with
    | begun hi | skipped hi | stale hi | committed hi => exact hdone hi rfl
    | asked | answered | dropped => cases hc
    | _ => cases hp
  | asked hp => exact (hdone hp rfl).elim
  | looked hp => exact (hdone hp rfl).elim
  | answered hp => exact (hdone hp rfl).elim
  | expired hp => exact (hdone hp rfl).elim
  | dropped hp => exact (hdone hp rfl).elim

/-- What a run comes to that begins with a pass that asks: the pass asks still, or it had come to the
end of its questions when it was finished. -/
theorem Asking.run (h : i.Asking inv s k)
    (hsrc : src.Reliable i.document i.timeout patient i.answer inv load) {es : List Event}
    (hr : Schedule.Runs src (Schedule.Waits src patient) s es s') :
    s.world.GoesOn i.answer i.document.key i.pass s'.world ∧
      ((∃ fan, i.Asking inv s' { k with fan }) ∨ Over (inv 0) s' ∧ ∃ es₁ s₁ fan,
        Schedule.Runs src (Schedule.Waits src patient) s es₁ s₁ ∧ i.Asking inv s₁ { k with fan } ∧
          fan.isDone = true ∧ s₁.world.step? (.finished i.pass) = some s'.world) := by
  induction hr with
  | refl => exact ⟨.refl, .inl ⟨k.fan, h⟩⟩
  | @move es s₁ s₂ e hr hm ih =>
    obtain ⟨hgo, ⟨fan, hasking⟩ | ⟨hover, es₁, s₀, fan, hr₀, hasking, hdone, hfin⟩⟩ := ih
    · obtain ⟨hadvances, hnext⟩ := hasking.move hsrc hm
      refine ⟨?_, ?_⟩
      · obtain ⟨-, hw⟩ | ⟨e', p, he, -, hs⟩ := hm.world
        · rw [hw]
          exact hgo
        · exact hgo.own hs (hadvances e' he)
      · obtain ⟨fan', hasking'⟩ | ⟨rfl, hdone, hover⟩ := hnext
        · exact .inl ⟨fan', hasking'⟩
        · obtain ⟨he, -⟩ | ⟨e', p, he, -, hs⟩ := hm.world
          · cases he
          · exact .inr ⟨hover, es, s₁, fan, hr, hasking, hdone, Option.some.inj he ▸ hs⟩
    · obtain ⟨rfl, hw, hover'⟩ := hover.move hsrc hm
      rw [hw]
      exact ⟨hgo, .inr ⟨hover', es₁, s₀, fan, hr₀, hasking, hdone, hfin⟩⟩

end Errand

end AnySpans.Passes
