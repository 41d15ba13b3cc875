import AnySpans.Proofs.Progress

/-!
# Answers by a timetable

A `Timetable` tells for each position what comes of a question there, and how long after the question
was put.  It does not look at the order in which questions are put, so the order decides nothing but
the order of the hits: however the questions of a pass are interleaved with their answers, the pass
finds the ranges whose answers come in time and tell of type `any` (`Timetable.follows`).
-/

namespace AnySpans.Passes

open AnySpans.Documents AnySpans.Signature AnySpans.Syntax AnySpans.Text

/-- What comes of a question. -/
inductive Fate where
  | answer (display : Option String)
  | failure
  /-- Nothing ever comes. -/
  | hang
deriving DecidableEq, Repr, Inhabited

/-- What comes of a question, and how long after it was put. -/
structure Reply where
  fate : Fate
  delay : Nat
deriving DecidableEq, Repr, Inhabited

abbrev Timetable := Position → Reply

/-- A question on its way. -/
structure Inquiry where
  call : Call
  position : Position
  since : Nat
  /-- Whether its answer was announced. -/
  told : Bool
deriving DecidableEq, Repr, Inhabited

/-- What is told of a question in the end; a failure counts as no answer. -/
def Fate.result : Fate → Option Answer
  | .answer display => some display
  | .failure => some none
  | .hang => none

/-- The answer, if it comes before the time is up. -/
def Reply.inTime (r : Reply) (timeout : Nat) : Answer :=
  if r.delay < timeout then r.fate.result.join else none

namespace Inquiry

/-- When something comes of a question, and what. -/
def comes (t : Timetable) (q : Inquiry) : Option (Nat × Answer) :=
  (t q.position).fate.result.map fun a => (q.since + (t q.position).delay, a)

/-- Something has come of a question that was not announced. -/
def isNews (t : Timetable) (now : Nat) (q : Inquiry) : Bool :=
  !q.told && (q.comes t).any fun c => c.1 ≤ now

def announce (t : Timetable) (now : Nat) (q : Inquiry) : Inquiry :=
  { q with told := q.told || q.isNews t now }

def posed (q : Inquiry) : Posed := ⟨q.call, q.position, q.since⟩

end Inquiry

namespace Timetable

variable (t : Timetable)

def look (qs : List Inquiry) (now : Nat) (c : Call) : List Inquiry × Option Answer :=
  match (qs.find? fun q => q.call == c).bind fun q => q.comes t with
  | some (time, a) => if time ≤ now then (qs.filter fun q => q.call ≠ c, some a) else (qs, none)
  | none => (qs, none)

/-- Announces what has come of the questions. -/
def work (qs : List Inquiry) (now : Nat) : Option (List Inquiry × List Call) :=
  match (qs.filter (Inquiry.isNews t now)).map Inquiry.call with
  | [] => none
  | calls => some (qs.map (Inquiry.announce t now), calls)

/-- The questions on their way, answered by a timetable. -/
def source : Source (List Inquiry) where
  ask qs now c _ at' := qs ++ [⟨c, at', now, false⟩]
  look := t.look
  forget qs c := qs.filter fun q => q.call ≠ c
  work := t.work
  due qs := ((qs.filter fun q => !q.told).filterMap fun q => (q.comes t).map Prod.fst).min?

/-- The questions that are on their way are those that are open, and none is overdue. -/
structure Tells (timeout : Nat) (qs : List Inquiry) (now : Nat) (ps : List Posed) : Prop where
  posed : qs.map Inquiry.posed = ps
  calls : (qs.map Inquiry.call).Nodup
  punctual : ∀ q ∈ qs, now ≤ q.since + timeout

/-- How much there is to announce. -/
def load (qs : List Inquiry) (now : Nat) : Nat := qs.countP (Inquiry.isNews t now)

/-- What comes of a question that is given up when its time has come. -/
def answer (timeout : Nat) (at' : Position) : Answer :=
  if (t at').delay ≤ timeout then (t at').fate.result.join else none

variable {t : Timetable} {timeout now : Nat} {qs : List Inquiry} {ps : List Posed} {q : Inquiry}
  {c : Call}

namespace Tells

theorem find? (h : Tells timeout qs now ps) {r : Posed} (hr : r ∈ ps) :
    ∃ q ∈ qs, q.posed = r ∧ qs.find? (fun q => q.call == r.call) = some q := by
  rw [← h.posed] at hr
  obtain ⟨q, hq, rfl⟩ := List.mem_map.1 hr
  refine ⟨q, hq, rfl, ?_⟩
  cases hfind : qs.find? fun q' => q'.call == q.posed.call with
  | none =>
    have := List.find?_eq_none.1 hfind q hq
    simp [Inquiry.posed] at this
  | some q' =>
    have hcall : q'.call = q.call := beq_iff_eq.1 (List.find?_some hfind :)
    rw [List.inj_on_of_nodup_map h.calls (List.mem_of_find?_eq_some hfind) hq hcall]

theorem filter (h : Tells timeout qs now ps) (c : Call) :
    Tells timeout (qs.filter fun q => q.call ≠ c) now (ps.filter fun r => r.call ≠ c) where
  posed := by rw [← h.posed, List.filter_map]; rfl
  calls := h.calls.sublist (List.filter_sublist.map _)
  punctual q hq := h.punctual q (List.mem_filter.1 hq).1

theorem announce (h : Tells timeout qs now ps) :
    Tells timeout (qs.map (Inquiry.announce t now)) now ps where
  posed := by rw [List.map_map]; exact h.posed
  calls := by rw [List.map_map]; exact h.calls
  punctual q hq := by
    obtain ⟨q', hq', rfl⟩ := List.mem_map.1 hq
    exact h.punctual q' hq'

end Tells

theorem load_announce (t : Timetable) (qs : List Inquiry) (now : Nat) :
    load t (qs.map (Inquiry.announce t now)) now = 0 := by
  rw [load, List.countP_eq_zero]
  intro q hq
  obtain ⟨q', -, rfl⟩ := List.mem_map.1 hq
  cases htold : q'.told <;> cases hnews : q'.isNews t now <;>
    simp_all [Inquiry.isNews, Inquiry.announce, Inquiry.comes]

/-- What looking at an open question finds. -/
theorem look_of_find? (t : Timetable) (now : Nat) (h : qs.find? (fun q => q.call == c) = some q) :
    (∃ a, q.comes t = some (q.since + (t q.position).delay, a) ∧
      q.since + (t q.position).delay ≤ now ∧
        t.look qs now c = (qs.filter fun q => q.call ≠ c, some a)) ∨
      ((∀ a, q.comes t = some (q.since + (t q.position).delay, a) →
        now < q.since + (t q.position).delay) ∧ t.look qs now c = (qs, none)) := by
  rw [look, h, Option.bind_some, Inquiry.comes]
  cases (t q.position).fate.result with
  | none => exact .inr ⟨nofun, rfl⟩
  | some a =>
    by_cases hle : q.since + (t q.position).delay ≤ now
    · exact .inl ⟨a, rfl, hle, if_pos hle⟩
    · exact .inr ⟨fun _ _ => Nat.lt_of_not_le hle, if_neg hle⟩

theorem work_eq_some {qs' : List Inquiry} {calls : List Call}
    (h : t.work qs now = some (qs', calls)) : qs' = qs.map (Inquiry.announce t now) ∧
      calls = (qs.filter (Inquiry.isNews t now)).map Inquiry.call ∧ calls ≠ [] := by
  unfold work at h
  split at h
  · cases h
  · rename_i hne
    cases h
    exact ⟨rfl, rfl, hne⟩

theorem work_eq_none (h : t.work qs now = none) : qs.filter (Inquiry.isNews t now) = [] := by
  unfold work at h
  split at h
  · exact List.map_eq_nil_iff.1 ‹_›
  · cases h

/-- A timetable answers reliably, and those questions in time whose delay is not longer than they are
waited for. -/
theorem reliable (t : Timetable) (d : Snapshot) (timeout : Nat) :
    t.source.Reliable d timeout False (t.answer timeout) (fun _ => Tells timeout) (load t) where
  ask := fun {_ qs now ps c} at' h hfresh => by
    refine ⟨?_, ?_, fun q hq => ?_⟩
    · show (qs ++ [(⟨c, at', now, false⟩ : Inquiry)]).map Inquiry.posed = _
      rw [List.map_append, h.posed]
      rfl
    · show ((qs ++ [(⟨c, at', now, false⟩ : Inquiry)]).map Inquiry.call).Nodup
      rw [List.map_append, List.map_singleton, List.nodup_append]
      refine ⟨h.calls, List.nodup_singleton c, fun c₁ hc₁ c₂ hc₂ heq => ?_⟩
      obtain ⟨q, hq, rfl⟩ := List.mem_map.1 hc₁
      refine hfresh q.posed (h.posed ▸ List.mem_map_of_mem hq) ?_
      exact heq.trans (List.mem_singleton.1 hc₂)
    · obtain hq | hq := List.mem_append.1 hq
      · exact h.punctual q hq
      · rw [List.mem_singleton.1 hq]
        exact Nat.le_add_right now timeout
  found := fun {_ qs qs' now ps r a} h hr hl => by
    obtain ⟨q, hq, rfl, hfind⟩ := h.find? hr
    obtain ⟨a', hcomes, hle, hlook⟩ | ⟨-, hlook⟩ := look_of_find? t now hfind
    · obtain ⟨rfl, hsome⟩ := Prod.mk.inj (hlook.symm.trans hl)
      obtain rfl := Option.some.inj hsome
      refine ⟨?_, h.filter _⟩
      have hresult : (t q.position).fate.result = some a' := by
        obtain ⟨b, hb, heq⟩ := Option.map_eq_some_iff.1 hcomes
        rw [hb, (Prod.mk.inj heq).2]
      have := h.punctual q hq
      show a' = t.answer timeout q.position
      rw [answer, if_pos (by omega), hresult]
      rfl
    · cases hlook.symm.trans hl
  pending := fun {_ qs qs' now ps r} h hr hl => by
    obtain ⟨q, hq, rfl, hfind⟩ := h.find? hr
    obtain ⟨a', -, -, hlook⟩ | ⟨-, hlook⟩ := look_of_find? t now hfind
    · cases hlook.symm.trans hl
    · obtain ⟨rfl, -⟩ := Prod.mk.inj (hlook.symm.trans hl)
      exact ⟨h, Nat.le_refl _⟩
  late := fun {_ qs qs' now ps r} h hr hl hlate => by
    obtain ⟨q, hq, rfl, hfind⟩ := h.find? hr
    obtain ⟨a', -, -, hlook⟩ | ⟨hnot, hlook⟩ := look_of_find? t now hfind
    · cases hlook.symm.trans hl
    · obtain ⟨rfl, -⟩ := Prod.mk.inj (hlook.symm.trans hl)
      refine ⟨?_, h.filter _⟩
      show t.answer timeout q.position = none
      have hlate : q.since + timeout ≤ now := hlate
      rw [answer]
      cases hresult : (t q.position).fate.result with
      | none => exact ite_self _
      | some a =>
        have := hnot a (by rw [Inquiry.comes, hresult]; rfl)
        exact if_neg (by omega)
  work := fun {_ qs qs' now ps calls} h hw => by
    obtain ⟨rfl, rfl, hne⟩ := work_eq_some hw
    refine ⟨h.announce, ?_, fun c hc => ?_⟩
    · rw [load_announce, load, List.countP_eq_length_filter, List.length_pos_iff]
      exact fun hnil => hne (by rw [hnil]; rfl)
    · obtain ⟨q, hq, rfl⟩ := List.mem_map.1 hc
      exact ⟨q.posed, h.posed ▸ List.mem_map_of_mem (List.mem_filter.1 hq).1, rfl⟩
  rest := fun {_ qs now ps time} h hw hdue => by
    obtain ⟨q, hq, hcomes⟩ := List.mem_filterMap.1 (List.min?_mem hdue)
    obtain ⟨hq, htold⟩ := List.mem_filter.1 hq
    have hnews := List.filter_eq_nil_iff.1 (work_eq_none hw) q hq
    obtain ⟨⟨time', a⟩, hc, rfl⟩ := Option.map_eq_some_iff.1 hcomes
    rw [Inquiry.isNews, htold, hc] at hnews
    simpa using hnews
  wait := fun {_ qs now time ps} h _ _ hopen _ => by
    refine ⟨h.posed, h.calls, fun q hq => ?_⟩
    exact hopen q.posed (h.posed ▸ List.mem_map_of_mem hq)

end Timetable

/-! ### However the questions are interleaved -/

section

variable {t : Timetable} {s s' s₁ : Schedule (List Inquiry)} {p limit : Nat} {cs : List Candidate}
  {k k' : Work}

/-- A pass that is not cancelled is about to put its questions, and nothing else goes on. -/
structure Schedule.SetsOut (s : Schedule (List Inquiry)) (p limit : Nat) (cs : List Candidate)
    (k : Work) : Prop where
  stage : s.world.passes[p]? = some (.asking k)
  fan : k.fan = .start limit cs
  live : s.world.isCancelled k = false
  alone : Errand.Alone p s.world
  inside : p < s.items.length
  items : s.itemsOf p = []
  deadlines : s.deadlines = []
  source : s.source = []

/-- What is asked when some candidates are asked about once and in order, the latest first. -/
def Work.askedOnce (k : Work) (p : Nat) (cs : List Candidate) : List Asked :=
  (cs.map fun c => ⟨p, k.request.document, c.position⟩).reverse

namespace Timetable

/-- A run comes to its world by the end of a pass that had all its answers and found some ranges. -/
def Returns (t : Timetable) (p : Nat) (s s' : Schedule (List Inquiry)) (ranges : List Range) : Prop :=
  ∃ es s₁ k, Schedule.Runs t.source (Schedule.Punctual t.source) s es s₁ ∧
    s₁.world.passes[p]? = some (.asking k) ∧ k.fan.isDone = true ∧ k.fan.hits = ranges ∧
      s₁.world.step? (.finished p) = some s'.world

/-- What holds in every moment of a run that begins with a pass setting out to ask about some
candidates. -/
structure Follows (t : Timetable) (p limit : Nat) (cs : List Candidate) (k : Work)
    (s s' : Schedule (List Inquiry)) : Prop where
  inFlight : s'.source.length ≤ max limit 1
  inOrder : ∃ n, s'.world.asked = k.askedOnce p (cs.take n) ++ s.world.asked
  /-- The pass returns all candidates that are answered in time with type `any`, and no others. -/
  complete : ∀ ranges, t.Returns p s s' ranges →
    s'.world.asked = k.askedOnce p cs ++ s.world.asked ∧ ranges.Perm
      ((cs.filter fun c => ((t c.position).inTime k.timeout).any isAnyType).map Candidate.range)
  returns : s'.hasEnded p = true → ∃ ranges, t.Returns p s s' ranges
  goesOn : ∃ es s'', Schedule.Runs t.source (Schedule.Punctual t.source) s' es s'' ∧
    s''.hasEnded p = true

/-- What a pass has to ask that sets out. -/
def errand (t : Timetable) (p limit : Nat) (cs : List Candidate) (k : Work)
    (s : Schedule (List Inquiry)) : Errand :=
  ⟨p, k.request.document, cs, max limit 1, k.timeout, t.answer k.timeout, s.world.asked⟩

theorem asked_errand (t : Timetable) (p limit : Nat) (cs : List Candidate) (k : Work)
    (s : Schedule (List Inquiry)) (n : Nat) : (t.errand p limit cs k s).asked n =
      k.askedOnce p (cs.take n) ++ s.world.asked := rfl

theorem asked_of_finished {w w' : World} (h : w.step? (.finished p) = some w') :
    w'.asked = w.asked := by
  cases World.steps_of_step? h <;> rfl

theorem asking_of_setsOut (t : Timetable) (h : s.SetsOut p limit cs k) :
    (t.errand p limit cs k s).Asking (fun _ => Tells k.timeout) s k where
  stage := h.stage
  live := h.live
  alone := h.alone
  document := rfl
  timeout := rfl
  settles := h.fan ▸ .start _ limit cs
  limit := by rw [h.fan]; rfl
  bounded := by rw [h.fan]; exact Nat.zero_le _
  asked := ⟨0, by rw [h.fan]; rfl, rfl⟩
  posing := by
    refine ⟨[], by rw [h.fan]; rfl, h.deadlines, ?_⟩
    rw [h.source]
    exact ⟨rfl, .nil, nofun⟩

/-- Where no delay is as long as questions are waited for, it does not matter which of the two comes
first. -/
theorem answer_eq_inTime {c : Candidate} {timeout : Nat} (h : (t c.position).delay ≠ timeout) :
    t.answer timeout c.position = (t c.position).inTime timeout := by
  rw [answer, Reply.inTime]
  exact if_congr (by omega) rfl rfl

/-- What a pass has found that has all its answers. -/
theorem found_of_isDone (h : (t.errand p limit cs k s).Asking (fun _ => Tells k.timeout) s₁ k')
    (hdelay : ∀ c ∈ cs, (t c.position).delay ≠ k.timeout) (hdone : k'.fan.isDone = true) :
    s₁.world.asked = k.askedOnce p cs ++ s.world.asked ∧ k'.fan.hits.Perm
      ((cs.filter fun c => ((t c.position).inTime k.timeout).any isAnyType).map Candidate.range) := by
  constructor
  · obtain ⟨n, hn, hasked⟩ := h.asked
    have hwaiting : k'.fan.waiting = [] := List.isEmpty_iff.1 (Bool.and_eq_true_iff.1 hdone).1
    rw [hwaiting, eq_comm, List.drop_eq_nil_iff, ← List.length_map (f := Query.candidate),
      Fanout.map_candidate_numbered] at hn
    rw [hasked, asked_errand]
    exact congrArg (fun cs => k.askedOnce p cs ++ s.world.asked) (List.take_of_length_le hn)
  · refine (h.settles.hits_perm hdone).trans (List.Perm.of_eq (congrArg _ ?_))
    refine List.filter_congr fun c hc => ?_
    exact congrArg (Option.any isAnyType) (answer_eq_inTime (hdelay c hc))

/-- What a run comes to that begins with a pass setting out to ask about some candidates. -/
theorem follows (h : s.SetsOut p limit cs k) (hdelay : ∀ c ∈ cs, (t c.position).delay ≠ k.timeout)
    {es : List Event} (hr : Schedule.Runs t.source (Schedule.Punctual t.source) s es s') :
    t.Follows p limit cs k s s' := by
  have hsrc := t.reliable (t.errand p limit cs k s).document k.timeout
  have hpunctual : ∀ (s : Schedule (List Inquiry)) time, s.Punctual t.source time →
      s.Waits t.source False time := fun _ _ h => ⟨h, False.elim⟩
  have hwaits : ∀ (s : Schedule (List Inquiry)) time, s.Waits t.source False time →
      s.Punctual t.source time := fun _ _ h => h.1
  have hrun : ∀ {es s'}, Schedule.Runs t.source (Schedule.Punctual t.source) s es s' → _ :=
    fun hr => (asking_of_setsOut t h).run hsrc (hr.mono hpunctual)
  have hcomplete : ∀ ranges, t.Returns p s s' ranges →
      s'.world.asked = k.askedOnce p cs ++ s.world.asked ∧ ranges.Perm
        ((cs.filter fun c => ((t c.position).inTime k.timeout).any isAnyType).map
          Candidate.range) := by
    rintro ranges ⟨es₁, s₁, k₁, hr₁, hk₁, hdone, rfl, hs⟩
    obtain ⟨-, ⟨fan, hasking⟩ | ⟨hover, -⟩⟩ := hrun hr₁
    · obtain rfl := Stage.asking.inj (Option.some.inj (hk₁.symm.trans hasking.stage))
      rw [asked_of_finished hs]
      exact found_of_isDone hasking hdelay hdone
    · cases hover.done p _ hk₁
  obtain ⟨-, ⟨fan, hasking⟩ | ⟨hover, es₁, s₁, fan, hr₁, hasking, hdone, hs⟩⟩ := hrun hr
  · obtain ⟨qs, hqs⟩ := hasking.posing
    obtain ⟨n, -, hasked⟩ := hasking.asked
    obtain ⟨es', s'', hr', -, hended⟩ := hasking.exists_ended hsrc
    have hstage : s'.world.passes[p]? = some (.asking { k with fan }) := hasking.stage
    refine ⟨?_, ⟨n, hasked⟩, hcomplete, fun hended => ?_, es', s'', hr'.mono hwaits, hended⟩
    · have hposed := congrArg List.length hqs.known.posed
      have hcalls := congrArg List.length hqs.calls
      rw [List.length_map] at hposed
      rw [List.length_map, List.length_map, ← hposed] at hcalls
      exact hcalls.le.trans hasking.bounded
    · rw [Schedule.hasEnded, hstage] at hended
      cases hended
  · obtain ⟨n, -, hasked⟩ := hasking.asked
    obtain ⟨-, -, o, ho⟩ := hasking.finish (World.steps_of_step? hs)
    have hended : s'.world.passes[p]? = some (.done k.request (.outcome o)) := ho
    refine ⟨?_, ⟨n, (asked_of_finished hs).trans hasked⟩, hcomplete,
      fun _ => ⟨_, es₁, s₁, _, hr₁.mono hwaits, hasking.stage, hdone, rfl, hs⟩, [], s', .refl, ?_⟩
    · rw [List.map_eq_nil_iff.1 hover.known.posed]
      exact Nat.zero_le _
    · rw [Schedule.hasEnded, hended]
      rfl

/-- The schedule itself comes to the end of the pass. -/
theorem exists_stopsAt (t : Timetable) (h : s.SetsOut p limit cs k) : ∃ es s',
    ((s.fill p).lookAround t.source p ((s.fill p).bound p)).StopsAt t.source
      (Schedule.hasEnded p) s' ∧
    Schedule.Runs t.source (Schedule.Punctual t.source) s es s' ∧ s'.hasEnded p = true := by
  have hsrc := t.reliable (t.errand p limit cs k s).document k.timeout
  obtain ⟨s', hend⟩ := (asking_of_setsOut t h).ends h.inside h.items h.deadlines hsrc id
  obtain ⟨es, hruns⟩ := hend.runs
  exact ⟨es, s', hend.stops, hruns.mono fun _ _ hwaits => hwaits.1, hend.ended⟩

/-- What a pass finds does not depend on how its questions are interleaved with their answers, nor on
how many may be open: it asks about each candidate once and in order, has no more questions open than
it may, can always come to its end, and then returns each candidate that is answered in time with
type `any`.  The schedule takes it to its end. -/
theorem order_decides_nothing (h : s.SetsOut p limit cs k)
    (hdelay : ∀ c ∈ cs, (t c.position).delay ≠ k.timeout) :
    (∀ es s', Schedule.Runs t.source (Schedule.Punctual t.source) s es s' →
      t.Follows p limit cs k s s') ∧
    ∃ es s' ranges, ((s.fill p).lookAround t.source p ((s.fill p).bound p)).StopsAt t.source
        (Schedule.hasEnded p) s' ∧
      Schedule.Runs t.source (Schedule.Punctual t.source) s es s' ∧ t.Returns p s s' ranges := by
  refine ⟨fun es s' hr => follows h hdelay hr, ?_⟩
  obtain ⟨es, s', hstops, hr, hended⟩ := exists_stopsAt t h
  obtain ⟨ranges, hreturns⟩ := (follows h hdelay hr).returns hended
  exact ⟨es, s', ranges, hstops, hr, hreturns⟩

/-- The names on the first line, at the given columns. -/
def namesAt (columns : List Nat) : List Candidate :=
  columns.map fun n => ⟨default, "a", ⟨⟨0, n⟩, ⟨0, n + 1⟩⟩⟩

/-- The first name is answered late, the second one in time, the third one not at all, and the
question about the fourth fails. -/
def slowAndFailing : Timetable := fun at' =>
  match at'.character with
  | 0 => ⟨.answer (some "let a: any"), 60⟩
  | 4 => ⟨.answer (some "let a: any"), 40⟩
  | 8 => ⟨.hang, 0⟩
  | _ => ⟨.failure, 10⟩

/-- Two of four names may be asked about at a time, each for fifty milliseconds. -/
def fourNames : Work :=
  ⟨⟨⟨⟨"/a.ts"⟩, "typescript", "a = a + a + a"⟩, default⟩, ⟨⟨"/a.ts"⟩, 0, 0⟩, 0, 4, 50,
    .start 2 (namesAt [0, 4, 8, 12])⟩

def settingOut : Schedule (List Inquiry) :=
  ⟨0, ⟨.new .builtIn, [.asking fourNames], []⟩, [], [], [[]], [], 0⟩

/-- Of the four names only the one that is answered in time is returned. -/
theorem slow_and_failing_answers_count_for_nothing : ∃ s',
    ((settingOut.fill 0).lookAround slowAndFailing.source 0 ((settingOut.fill 0).bound 0)).StopsAt
      slowAndFailing.source (Schedule.hasEnded 0) s' ∧
    slowAndFailing.Returns 0 settingOut s' [⟨⟨0, 4⟩, ⟨0, 5⟩⟩] := by
  have hstart : settingOut.SetsOut 0 2 (namesAt [0, 4, 8, 12]) fourNames := by
    refine ⟨rfl, rfl, rfl, fun j st hj hst => ?_, Nat.zero_lt_one, rfl, rfl, rfl⟩
    obtain ⟨hlt, -⟩ := List.getElem?_eq_some_iff.1 hst
    exact absurd (Nat.lt_one_iff.1 hlt) hj
  obtain ⟨hfollows, es, s', ranges, hstops, hr, hreturns⟩ :=
    order_decides_nothing (t := slowAndFailing) hstart (by decide)
  obtain ⟨-, hperm⟩ := (hfollows es s' hr).complete ranges hreturns
  have hranges : ranges = [⟨⟨0, 4⟩, ⟨0, 5⟩⟩] :=
    List.perm_singleton.1 (hperm.trans (List.Perm.of_eq (by decide +kernel)))
  exact ⟨s', hstops, hranges ▸ hreturns⟩

end Timetable

end

end AnySpans.Passes
