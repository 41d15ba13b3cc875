import AnySpans.Proofs.Debouncing
import AnySpans.Proofs.Timelines

/-!
# The books of a desk

A desk keeps the last request of each document and those that wait for quiet; the registry keeps the
documents that are open.  All three are brought up to date separately by each notice, and what waits
also by the clock.  After every run the tables of the desk hold the standing requests
(`Desk.Records`), what waits among them.  So a pass is for the request that stood when it was called
for (`Calls.standing`), and as what the clock has called for does not wait any longer
(`TimerCalls.pending_none`), a burst of requests leads to one such pass at most
(`TimerCalls.eq_of_prefix`, `TimerCalls.unique`).
-/

namespace AnySpans.Passes

open AnySpans.Documents AnySpans.Settings AnySpans.Syntax

/-! ### The tables of a desk -/

namespace Desk

variable {d : Desk} {j : Key} {n : Notice} {now : Nat} {r : Request} {log : List (Notice × Nat)}

theorem get?_cancel_all (ks : List Key) (b : Debouncer) (j : Key) :
    (ks.foldl .cancel b).pending.get? j =
      if ks.any (· == j) then none else b.pending.get? j := by
  induction ks generalizing b with
  | nil => rfl
  | cons k ks ih =>
    rw [List.foldl_cons, ih, List.any_cons]
    have hcancel : (b.cancel k).pending.get? j =
        if (k == j) = true then none else b.pending.get? j := b.pending.get?_erase k j
    rw [hcancel]
    cases k == j <;> cases ks.any (· == j) <;> rfl

theorem distinct_cancel_all {ks : List Key} {b : Debouncer} (h : b.pending.Distinct) :
    (ks.foldl .cancel b).pending.Distinct := by
  induction ks generalizing b with
  | nil => exact h
  | cons k ks ih => exact ih (h.filter _)

theorem get?_latest_handle (d : Desk) (now : Nat) (n : Notice) (j : Key) :
    (d.handle now n).1.latest.get? j =
      if n.closes j then none else (n.requestOf? j).or (d.latest.get? j) := by
  cases n with
  | opened r | changed r | scrolled r | focused r =>
    show (d.latest.put r.key r).get? j = _
    rw [Table.get?_put]
    simp only [Notice.closes, Notice.requestOf?, Notice.request?, Option.filter_some]
    cases r.key == j <;> rfl
  | closed k => exact d.latest.get?_erase k j
  | diagnosed k ranges => rfl
  | configured c => rfl

theorem get?_pending_handle (hn : n.settings? = none) :
    (d.handle now n).1.debouncer.pending.get? j = if n.closes j then none
    else ((n.requestOf? j).map (⟨·, now⟩)).or (d.debouncer.pending.get? j) := by
  cases n with
  | opened r | changed r | scrolled r | focused r =>
    show (d.debouncer.pending.put r.key ⟨r, now⟩).get? j = _
    rw [Table.get?_put]
    simp only [Notice.closes, Notice.requestOf?, Notice.request?, Option.filter_some]
    cases r.key == j <;> rfl
  | closed k => exact d.debouncer.pending.get?_erase k j
  | diagnosed k ranges => rfl
  | configured c => cases hn

/-- New settings call what waits off, as far as it is the last request of its document. -/
theorem get?_pending_configured (c : Config) :
    (d.handle now (.configured c)).1.debouncer.pending.get? j =
      if d.latest.keys.any (· == j) then none else d.debouncer.pending.get? j :=
  get?_cancel_all d.latest.keys _ j

/-- A notice without a request for a document lets nothing begin to wait for it. -/
theorem get?_pending_none (hr : n.requestOf? j = none)
    (h : d.debouncer.pending.get? j = none) :
    (d.handle now n).1.debouncer.pending.get? j = none := by
  cases hn : n.settings? with
  | none =>
    rw [get?_pending_handle hn, hr, h]
    exact ite_self none
  | some c =>
    obtain rfl := Notice.eq_configured hn
    rw [get?_pending_configured, h]
    exact ite_self none

theorem delay_handle : (d.handle now n).1.debouncer.delay =
    (n.settings?.map Config.debounce).getD d.debouncer.delay := by
  cases n with
  | configured c =>
    have hgo : ∀ (ks : List Key) (b : Debouncer), (ks.foldl .cancel b).delay = b.delay := by
      intro ks
      induction ks with
      | nil => exact fun _ => rfl
      | cons k ks ih => exact fun b => ih (b.cancel k)
    exact hgo d.latest.keys _
  | _ => rfl

/-- The tables hold the standing requests: each in the table of last requests, and those that wait
with the times they came. -/
structure Records (d : Desk) (log : List (Notice × Nat)) : Prop where
  latest : ∀ j, d.latest.get? j = (standing? j log).map Prod.fst
  pending : ∀ j p, d.debouncer.pending.get? j = some p →
    standing? j log = some (p.request, p.since)
  distinct : d.latest.Distinct
  distinctPending : d.debouncer.pending.Distinct

namespace Records

theorem new (c : Config) : (Desk.new c).Records [] where
  latest _ := rfl
  pending _ _ h := by cases h
  distinct := Table.distinct_empty
  distinctPending := Table.distinct_empty

/-- What waits is the last request. -/
theorem latest_of_pending (h : d.Records log) {p : Pending}
    (hp : d.debouncer.pending.get? j = some p) : d.latest.get? j = some p.request := by
  rw [h.latest, h.pending j p hp, Option.map_some]

theorem standing_of_latest (h : d.Records log) (hr : r ∈ d.latest.values) :
    ∃ time, standing? r.key log = some (r, time) := by
  obtain ⟨row, hrow, rfl⟩ := List.mem_map.1 hr
  have hget := h.latest row.1
  rw [h.distinct.get?_of_mem hrow] at hget
  obtain ⟨⟨r, time⟩, hstanding, hr⟩ := Option.map_eq_some_iff.1 hget.symm
  obtain ⟨n, -, hn⟩ := exists_of_standing? hstanding
  obtain rfl : r = row.2 := hr
  exact ⟨time, standing?_congr (Notice.key_of_requestOf? hn) log ▸ hstanding⟩

theorem key_of_row (h : d.Records log) {row : Key × Pending}
    (hrow : row ∈ d.debouncer.pending.rows) : (row.2.request.key == row.1) = true := by
  have hstanding := h.pending _ _ (h.distinctPending.get?_of_mem hrow)
  obtain ⟨n, -, hn⟩ := exists_of_standing? hstanding
  exact Notice.key_of_requestOf? hn

theorem standing_of_pending (h : d.Records log) {p : Pending}
    (hp : p ∈ d.debouncer.pending.values) :
    standing? p.request.key log = some (p.request, p.since) ∧
      d.debouncer.pending.get? p.request.key = some p := by
  obtain ⟨row, hrow, rfl⟩ := List.mem_map.1 hp
  have hget := h.distinctPending.get?_of_mem hrow
  have hkey := h.key_of_row hrow
  rw [standing?_congr hkey, Table.get?_congr _ hkey]
  exact ⟨h.pending _ _ hget, hget⟩

/-- Requests that are due together are of different documents. -/
theorem pairwise_due (h : d.Records log) (now : Nat) :
    (d.debouncer.due now).Pairwise fun r r' => (r.key == r'.key) = false :=
  Debouncer.pairwise_due h.distinctPending (fun _ => h.key_of_row) now

theorem distinct_handle (h : d.Records log) (now : Nat) (n : Notice) :
    (d.handle now n).1.latest.Distinct ∧ (d.handle now n).1.debouncer.pending.Distinct := by
  cases n with
  | opened r | changed r | scrolled r | focused r =>
    exact ⟨h.distinct.put r.key r, h.distinctPending.put r.key ⟨r, now⟩⟩
  | closed k => exact ⟨h.distinct.filter _, h.distinctPending.filter _⟩
  | diagnosed k ranges => exact ⟨h.distinct, h.distinctPending⟩
  | configured c => exact ⟨h.distinct, distinct_cancel_all h.distinctPending⟩

/-- Handling a notice keeps the books. -/
theorem handle (h : d.Records log) (now : Nat) (n : Notice) :
    (d.handle now n).1.Records (log ++ [(n, now)]) where
  latest j := by
    rw [get?_latest_handle, standing?_concat, h.latest]
    cases n.closes j <;> cases n.requestOf? j <;> rfl
  pending j p hp := by
    rw [standing?_concat]
    cases hn : n.settings? with
    | none =>
      rw [get?_pending_handle hn] at hp
      cases hc : n.closes j with
      | true =>
        rw [hc] at hp
        cases hp
      | false =>
        rw [hc] at hp
        cases hr : n.requestOf? j with
        | none =>
          rw [hr] at hp
          exact h.pending j p hp
        | some r =>
          rw [hr] at hp
          obtain rfl := Option.some.inj hp
          rfl
    | some c =>
      obtain rfl := Notice.eq_configured hn
      rw [get?_pending_configured] at hp
      split at hp
      · cases hp
      · exact h.pending j p hp
  distinct := (h.distinct_handle now n).1
  distinctPending := (h.distinct_handle now n).2

/-- Calling for the passes that are due keeps the books. -/
theorem release (h : d.Records log) (now : Nat) : (d.release now).1.Records log where
  latest := h.latest
  pending j p hp := h.pending j p (h.distinctPending.get?_filter hp)
  distinct := h.distinct
  distinctPending := h.distinctPending.filter _

/-- New settings leave nothing waiting. -/
theorem isEmpty_configured (h : d.Records log) (now : Nat) (c : Config) :
    (d.handle now (.configured c)).1.debouncer.isEmpty = true := by
  refine List.isEmpty_iff.2 (List.eq_nil_iff_forall_not_mem.2 fun row hrow => ?_)
  have hget := (h.handle now (.configured c)).distinctPending.get?_of_mem hrow
  rw [get?_pending_configured] at hget
  split at hget
  · cases hget
  · rename_i hnot
    -- what waits is in the table of last requests, so it was called off
    obtain ⟨row', hrow', hkey, -⟩ := Table.exists_mem_of_get? (h.latest_of_pending hget)
    exact hnot (List.any_eq_true.2 ⟨row'.1, List.mem_map_of_mem hrow', hkey⟩)

/-- What was due does not wait any longer. -/
theorem get?_remaining_of_due (h : d.Records log) {p : Pending}
    (hp : d.debouncer.pending.get? j = some p) (hdue : d.debouncer.isDue now p = true) :
    (d.debouncer.remaining now).pending.get? j = none := by
  refine Option.eq_none_iff_forall_ne_some.2 fun p' hp' => ?_
  obtain ⟨hget, hnot⟩ := (Debouncer.get?_remaining_iff h.distinctPending).1 hp'
  obtain rfl : p = p' := Option.some.inj (hp.symm.trans hget)
  exact absurd (hnot.symm.trans hdue) Bool.false_ne_true

end Records

end Desk

/-! ### Passes that a turn calls for -/

namespace World

/-- A step of a pass makes no pass. -/
theorem Steps.length_passes {w w' : World} {e : Event} (h : w.Steps e w')
    (he : e.isAdvance = true) : w'.passes.length = w.passes.length := by
  cases h with
  | spawned r => cases he
  | begun _ _ | asked _ _ _ | skipped _ _ _ | answered _ _ _ | dropped _ _ _ | stale _ _ _
  | committed _ _ _ => exact List.length_set
  | _ => rfl

end World

namespace Service

variable {start s s' : Service} {ts : List Turn} {t : Turn} {p : Nat} {r : Request} {c : Config}

/-- The requests for which a turn calls for passes. -/
def calls (s : Service) : Turn → List Request
  | .handled =>
    match s.queue with
    | .configured _ :: _ => s.desk.latest.values
    | _ => []
  | .released => s.desk.debouncer.due s.now
  | _ => []

/-- A pass that is new after a turn was called for by it. -/
theorem Steps.called (h : s.Steps t s') (hnone : s.world.passes[p]? = none) {stage : Stage}
    (hsome : s'.world.passes[p]? = some stage) :
    ∃ r, stage = .ready r ∧ (s.calls t)[p - s.world.passes.length]? = some r := by
  have hle := List.getElem?_eq_none_iff.1 hnone
  have hspawned : ∀ {w : World} {rs : List Request}, w.passes = s.world.passes →
      ((rs.map Event.spawned).foldl World.step w).passes[p]? = some stage →
      ∃ r, stage = .ready r ∧ rs[p - s.world.passes.length]? = some r := by
    intro w rs hw hp
    rw [World.foldl_spawned, hw, List.getElem?_append_right hle, List.getElem?_map] at hp
    obtain ⟨r, hr, rfl⟩ := Option.map_eq_some_iff.1 hp
    exact ⟨r, rfl, hr⟩
  cases h with
  | told n | elapsed duration =>
    rw [hnone] at hsome
    cases hsome
  | @handled n queue hqueue =>
    rw [calls, hqueue]
    cases n with
    | configured c => exact hspawned (w := s.world.change fun a => a.setConfig c) rfl hsome
    | _ =>
      rw [show s.world.passes[p]? = some stage from hsome] at hnone
      cases hnone
  | released => exact hspawned rfl hsome
  | @advanced e w hadvance hstep =>
    have hlength := (World.steps_of_step? hstep).length_passes hadvance
    have hlt : p < w.passes.length := (List.getElem?_eq_some_iff.1 hsome).1
    exact absurd (hlength ▸ hlt) (Nat.not_lt.2 hle)

/-- Every pass was called for. -/
theorem Run.exists_calls (h : Run start ts s) (hstart : start.world.passes = [])
    {stage : Stage} (hp : s.world.passes[p]? = some stage) :
    ∃ called later r, ts = called ++ later ∧ Calls start called p r := by
  induction h generalizing stage with
  | start =>
    rw [hstart] at hp
    cases hp
  | @step ts t s s' hrun hs ih =>
    cases hbefore : s.world.passes[p]? with
    | some stage' =>
      obtain ⟨called, later, r, rfl, hcalls⟩ := ih hbefore
      exact ⟨called, later ++ [t], r, List.append_assoc .., hcalls⟩
    | none =>
      obtain ⟨r, rfl, -⟩ := (steps_of_step? hs).called hbefore hp
      exact ⟨ts ++ [t], [], r, (List.append_nil _).symm, ts, t, s, s', rfl, hrun, hs, hbefore, hp⟩

/-! ### The books after a run -/

/-- After some turns the books of the desk are those of the notices handled in them, the clock shows
the time and the last settings are in force. -/
structure Kept (c : Config) (s : Service) (ts : List Turn) : Prop where
  queued : Queued s.queue ts
  now : s.now = clock ts
  delay : s.desk.debouncer.delay = delayAfter c (handledNotices ts)
  records : s.desk.Records (handledAt ts)

theorem kept_reading (R : Readers) (c : Config) : Kept c (reading R c) [] where
  queued := ⟨[], rfl, rfl⟩
  now := rfl
  delay := rfl
  records := .new c

theorem Kept.step (h : Kept c s ts) (hs : s.Steps t s') : Kept c s' (ts ++ [t]) := by
  have hother : t.isHandled = false → handledNotices (ts ++ [t]) = handledNotices ts ∧
      handledAt (ts ++ [t]) = handledAt ts := fun ht =>
    ⟨(h.queued.other ht).2, h.queued.handledAt_other ht⟩
  have hclock : s.now + t.duration = clock (ts ++ [t]) := by rw [clock_concat, h.now]
  cases hs with
  | told n =>
    obtain ⟨hns, hlog⟩ := hother rfl
    exact ⟨(h.queued.other rfl).1, hclock, hns ▸ h.delay,
      hlog ▸ h.records⟩
  | @handled n queue hqueue =>
    have hqueued : Queued (n :: queue) ts := hqueue ▸ h.queued
    obtain ⟨hrest, hns⟩ := hqueued.next rfl
    refine ⟨hrest, hclock, ?_, ?_⟩
    · rw [hns, delayAfter_concat, ← h.delay]
      exact Desk.delay_handle
    · rw [hqueued.handledAt_next, ← h.now]
      exact h.records.handle s.now n
  | released =>
    obtain ⟨hns, hlog⟩ := hother rfl
    exact ⟨(h.queued.same rfl rfl).1, hclock, hns ▸ h.delay,
      hlog ▸ h.records.release s.now⟩
  | elapsed duration =>
    obtain ⟨hns, hlog⟩ := hother rfl
    exact ⟨(h.queued.same rfl rfl).1, hclock, hns ▸ h.delay, hlog ▸ h.records⟩
  | advanced _ _ =>
    obtain ⟨hns, hlog⟩ := hother rfl
    exact ⟨(h.queued.same rfl rfl).1, hclock, hns ▸ h.delay,
      hlog ▸ h.records⟩

theorem Run.kept {R : Readers} (h : Run (.reading R c) ts s) : Kept c s ts := by
  induction h with
  | start => exact kept_reading R c
  | step _ hs ih => exact ih.step (steps_of_step? hs)

/-- A turn handles one notice or none. -/
theorem Kept.handled (h : Kept c s ts) (hs : s.Steps t s') :
    handledNotices (ts ++ [t]) = handledNotices ts ∨ ∃ n queue, t = .handled ∧
      s.queue = n :: queue ∧ handledNotices (ts ++ [t]) = handledNotices ts ++ [n] := by
  cases hs with
  | @handled n queue hqueue => exact .inr ⟨n, queue, rfl, hqueue, (h.queued.next hqueue).2⟩
  | _ => exact .inl (h.queued.other rfl).2

theorem Run.handledNotices_append {R : Readers} {before later : List Turn}
    (h : Run (.reading R c) (before ++ later) s) :
    handledNotices (before ++ later) = handledNotices before ++ handledIn before later := by
  suffices hp : handledNotices before <+: handledNotices (before ++ later) from
    (List.prefix_iff_eq_append.1 hp).symm
  induction later using List.reverseRecOn generalizing s with
  | nil => simp
  | append_singleton later t ih =>
    rw [← List.append_assoc] at h ⊢
    obtain ⟨s₀, hrun, hs⟩ := h.of_concat
    obtain hsame | ⟨n, -, -, -, hnext⟩ := hrun.kept.handled (steps_of_step? hs)
    · exact hsame ▸ ih hrun
    · exact hnext ▸ (ih hrun).trans (List.prefix_append _ _)

theorem Run.handledIn_append {R : Readers} {before mid later : List Turn}
    (h : Run (.reading R c) (before ++ mid ++ later) s) :
    handledIn before (mid ++ later) = handledIn before mid ++ handledIn (before ++ mid) later := by
  obtain ⟨s₀, h₀⟩ := h.left
  have hall := h.handledNotices_append
  rw [h₀.handledNotices_append, List.append_assoc, List.append_assoc] at hall
  rw [handledIn, hall, List.drop_left]

/-! ### Passes called for by the clock and by settings -/

/-- The last of some turns calls for a pass over a document because its request is due. -/
def TimerCalls (start : Service) (called : List Turn) (j : Key) (p : Nat) : Prop :=
  ∃ before r, called = before ++ [.released] ∧ Calls start called p r ∧ (r.key == j) = true

/-- A request that is due stands, and nothing came for its document during the delay. -/
theorem Kept.due (h : Kept c s ts) {j : Key} (hr : r ∈ s.desk.debouncer.due s.now)
    (hj : (r.key == j) = true) : ∃ w, s.desk.debouncer.pending.get? j = some w ∧ w.request = r ∧
      s.desk.debouncer.isDue s.now w = true ∧ standing? j (handledAt ts) = some (r, w.since) ∧
      w.since + delayAfter c (handledNotices ts) ≤ clock ts := by
  obtain ⟨w, hw, rfl⟩ := List.mem_map.1 hr
  obtain ⟨hmem, hdue⟩ := List.mem_filter.1 hw
  obtain ⟨hstanding, hget⟩ := h.records.standing_of_pending hmem
  rw [standing?_congr hj] at hstanding
  rw [Table.get?_congr _ hj] at hget
  refine ⟨w, hget, rfl, hdue, hstanding, ?_⟩
  obtain ⟨n, hn, -⟩ := exists_of_standing? hstanding
  have hpast := le_clock hn
  have hdelay := of_decide_eq_true hdue
  rw [h.delay, h.now] at hdelay
  omega

/-- A pass carries the standing request of its document; it is called for after the delay in force
or by new settings. -/
theorem Calls.standing {R : Readers} {called : List Turn} (h : Calls (.reading R c) called p r) :
    ∃ time, standing? r.key (handledAt called) = some (r, time) ∧
      ((∃ before, called = before ++ [.released]) ∧
          time + delayAfter c (handledNotices called) ≤ clock called ∨
        ∃ before c', called = before ++ [.handled] ∧
          handledIn before [.handled] = [.configured c']) := by
  obtain ⟨before, t, s, s', rfl, hrun, hstep, hnone, hready⟩ := h
  have hkept := hrun.kept
  obtain ⟨r', hr', hcalls⟩ := (steps_of_step? hstep).called hnone hready
  cases hr'
  have hmem := List.mem_of_getElem? hcalls
  cases t with
  | handled =>
    rw [calls] at hmem
    split at hmem
    · rename_i c' queue hqueue
      have hqueued : Queued (.configured c' :: queue) before := hqueue ▸ hkept.queued
      obtain ⟨time, htime⟩ := hkept.records.standing_of_latest hmem
      refine ⟨time, ?_, .inr ⟨before, c', rfl, ?_⟩⟩
      · rw [hqueued.handledAt_next, standing?_concat]
        exact htime
      · exact hqueued.handledIn_next
    · cases hmem
  | released =>
    obtain ⟨w, -, -, -, hstanding, hdelay⟩ := hkept.due hmem BEq.rfl
    refine ⟨w.since, ?_, .inl ⟨⟨before, rfl⟩, ?_⟩⟩
    · rw [hkept.queued.handledAt_other rfl]
      exact hstanding
    · rw [(hkept.queued.same (t := .released) rfl rfl).2, clock_concat]
      exact hdelay
  | told n | elapsed duration | advanced e => cases hmem

section

variable {R : Readers} {called : List Turn} {j : Key} {p' : Nat}

theorem TimerCalls.calm (h : TimerCalls (.reading R c) called j p) : Calm c j called = true := by
  obtain ⟨before, r, rfl, hcalls, hj⟩ := h
  obtain ⟨time, htime, ⟨-, hdelay⟩ | ⟨before', c', heq, -⟩⟩ := hcalls.standing
  · rw [Calm, ← standing?_congr hj, htime]
    exact decide_eq_true hdelay
  · cases (List.append_inj' heq rfl).2

/-- The moment at which the clock calls for a pass. -/
theorem TimerCalls.exists_due (h : TimerCalls (.reading R c) called j p) :
    ∃ before s r, called = before ++ [.released] ∧ Run (.reading R c) before s ∧
      s.world.passes.length ≤ p ∧
      (s.desk.debouncer.due s.now)[p - s.world.passes.length]? = some r ∧ (r.key == j) = true := by
  obtain ⟨before, r, rfl, ⟨before', t, s, s', heq, hrun, hstep, hnone, hready⟩, hj⟩ := h
  obtain ⟨rfl, ht⟩ := List.append_inj' heq rfl
  cases ht
  obtain ⟨r', hr', hcalls⟩ := (steps_of_step? hstep).called hnone hready
  cases hr'
  exact ⟨before, s, r, rfl, hrun, List.getElem?_eq_none_iff.1 hnone, hcalls, hj⟩

/-- One turn calls for one pass over a document at most. -/
theorem TimerCalls.unique (h : TimerCalls (.reading R c) called j p)
    (h' : TimerCalls (.reading R c) called j p') : p = p' := by
  obtain ⟨before, s, r, rfl, hrun, hle, hr, hj⟩ := h.exists_due
  obtain ⟨before', s', r', heq, hrun', hle', hr', hj'⟩ := h'.exists_due
  obtain ⟨rfl, -⟩ := List.append_inj' heq rfl
  obtain rfl := hrun.unique hrun'
  have hpair := hrun.kept.records.pairwise_due s.now
  have hkey : (r.key == r'.key) = true := (BEq.congr_right hj').trans hj
  have hnot : ∀ {i i' : Nat} {q q' : Request}, (s.desk.debouncer.due s.now)[i]? = some q →
      (s.desk.debouncer.due s.now)[i']? = some q' → (q.key == q'.key) = true → ¬ i < i' := by
    intro i i' q q' hq hq' hsame hlt
    obtain ⟨hi, rfl⟩ := List.getElem?_eq_some_iff.1 hq
    obtain ⟨hi', rfl⟩ := List.getElem?_eq_some_iff.1 hq'
    exact absurd hsame (Bool.eq_false_iff.1 (List.pairwise_iff_getElem.1 hpair i i' hi hi' hlt))
  have hlt := hnot hr hr' hkey
  have hgt := hnot hr' hr (BEq.symm hkey)
  omega

/-- After the clock called for a pass nothing waits for its document. -/
theorem TimerCalls.pending_none (h : TimerCalls (.reading R c) called j p)
    (hs : Run (.reading R c) called s) : s.desk.debouncer.pending.get? j = none := by
  obtain ⟨before, s₀, r, rfl, hrun, -, hr, hj⟩ := h.exists_due
  obtain ⟨s₁, hrun₁, hstep⟩ := hs.of_concat
  obtain rfl := hrun.unique hrun₁
  have hkept := hrun.kept
  obtain ⟨w, hw, -, hdue, -⟩ := hkept.due (List.mem_of_getElem? hr) hj
  cases steps_of_step? hstep with
  | released => exact hkept.records.get?_remaining_of_due hw hdue

/-- Without a request for a document nothing begins to wait for it. -/
theorem Run.pending_none {before later : List Turn} (h : Run (.reading R c) (before ++ later) s)
    (hbefore : ∀ s₀, Run (.reading R c) before s₀ → s₀.desk.debouncer.pending.get? j = none)
    (hlater : ∀ n ∈ handledIn before later, n.requestOf? j = none) :
    s.desk.debouncer.pending.get? j = none := by
  induction later using List.reverseRecOn generalizing s with
  | nil => exact hbefore s (List.append_nil before ▸ h)
  | append_singleton later t ih =>
    rw [← List.append_assoc] at h
    obtain ⟨s₁, hrun, hstep⟩ := h.of_concat
    have hkept := hrun.kept
    rw [h.handledIn_append] at hlater
    have hnone := ih hrun fun n hn => hlater n (List.mem_append_left _ hn)
    cases steps_of_step? hstep with
    | @handled n queue hqueue =>
      have hn : n.requestOf? j = none := by
        refine hlater n (List.mem_append_right _ ?_)
        have hqueued : Queued (n :: queue) (before ++ later) := hqueue ▸ hkept.queued
        rw [hqueued.handledIn_next]
        exact List.mem_singleton_self n
      exact Desk.get?_pending_none hn hnone
    | released =>
      refine Option.eq_none_iff_forall_ne_some.2 fun w hw => ?_
      cases hnone.symm.trans (hkept.records.distinctPending.get?_filter hw)
    | _ => exact hnone

/-- While nothing comes for a document any more, the clock calls for no second pass after a burst of
requests in which the document was never calm. -/
theorem TimerCalls.eq_of_prefix {before burst rest part part' : List Turn}
    (hs : Run (.reading R c) (before ++ (burst ++ rest)) s)
    (hburst : ∀ mid later, burst = mid ++ later → mid ≠ [] → later ≠ [] →
      Calm c j (before ++ mid) = false)
    (hrest : ∀ n ∈ handledIn (before ++ burst) rest, n.requestOf? j = none)
    (hne : part ≠ []) (hpart' : part' <+: burst ++ rest)
    (h : TimerCalls (.reading R c) (before ++ part) j p)
    (h' : TimerCalls (.reading R c) (before ++ part') j p') (hle : part <+: part') :
    part = part' := by
  obtain ⟨more, rfl⟩ := hle
  obtain rfl | ⟨more, t, rfl⟩ := more.eq_nil_or_concat'
  · exact (List.append_nil part).symm
  exfalso
  -- the first pass is not called for inside of the burst
  have hafter : burst <+: part := by
    obtain hp | hp := List.prefix_or_prefix_of_prefix
      ((List.prefix_append part _).trans hpart') (List.prefix_append burst rest)
    · obtain ⟨later, rfl⟩ := hp
      by_cases hlater : later = []
      · simp [hlater]
      · have := hburst part later rfl hne hlater
        rw [h.calm] at this
        cases this
    · exact hp
  obtain ⟨mid, rfl⟩ := hafter
  obtain ⟨later, hlater⟩ := hpart'
  obtain rfl : mid ++ (more ++ ([t] ++ later)) = rest := by
    simpa only [List.append_assoc, List.append_cancel_left_eq] using hlater
  obtain ⟨before', s', r, heq, hrun, -, hr, hj⟩ := h'.exists_due
  have heq' : before ++ burst ++ mid ++ more ++ [t] = before' ++ [.released] := by
    rw [← heq]
    simp only [List.append_assoc]
  obtain ⟨rfl, -⟩ := List.append_inj' heq' rfl
  rw [← List.append_assoc before, ← List.append_assoc] at hs
  rw [hs.handledIn_append] at hrest
  rw [← List.append_assoc] at hs
  rw [hs.handledIn_append] at hrest
  have hnone : s'.desk.debouncer.pending.get? j = none := by
    refine hrun.pending_none (fun s₀ hs₀ => ?_) fun n hn =>
      hrest n (List.mem_append_right _ (List.mem_append_left _ hn))
    rw [List.append_assoc] at hs₀
    exact h.pending_none hs₀
  obtain ⟨w, hw, -⟩ := hrun.kept.due (List.mem_of_getElem? hr) hj
  cases hnone.symm.trans hw

end

/-! ### The latest request -/

/-- The books of a desk after a run: each document's last request since its last closing is in the
table of last requests, what waits and every open document is in that table, and new settings leave
nothing waiting.  So every pass carries the request that stood when it was called for, by new
settings or after the delay in force; and the clock calls for one pass at most after requests between
which their document was never calm. -/
theorem latest_request_stands {R : Readers} (h : Run (.reading R c) ts s) :
    (∀ j, s.desk.latest.get? j = (standing? j (handledAt ts)).map Prod.fst) ∧
    (∀ j w, s.desk.debouncer.pending.get? j = some w → s.desk.latest.get? j = some w.request) ∧
    (∀ j, s.world.analyzer.registry.isOpen j = true → s.desk.latest.contains j = true) ∧
    (∀ before c', ts = before ++ [.handled] → handledIn before [.handled] = [.configured c'] →
      s.desk.debouncer.isEmpty = true) ∧
    (∀ p stage, s.world.passes[p]? = some stage → ∃ called later r time, ts = called ++ later ∧
      Calls (.reading R c) called p r ∧ standing? r.key (handledAt called) = some (r, time) ∧
      ((∃ before, called = before ++ [.released]) ∧
          time + delayAfter c (handledNotices called) ≤ clock called ∨
        ∃ before c', called = before ++ [.handled] ∧
          handledIn before [.handled] = [.configured c'])) ∧
    ∀ j before burst rest, ts = before ++ (burst ++ rest) →
      (∀ mid later, burst = mid ++ later → mid ≠ [] → later ≠ [] →
        Calm c j (before ++ mid) = false) →
      (∀ n ∈ handledIn (before ++ burst) rest, n.requestOf? j = none) →
      ∀ part part' p p', part ≠ [] → part' ≠ [] → part <+: burst ++ rest → part' <+: burst ++ rest →
        TimerCalls (.reading R c) (before ++ part) j p →
        TimerCalls (.reading R c) (before ++ part') j p' → p = p' := by
  have hkept := h.kept
  refine ⟨hkept.records.latest, fun j w => hkept.records.latest_of_pending, fun j hj => ?_,
    fun before c' hts hc' => ?_, fun p stage hp => ?_, ?_⟩
  · obtain ⟨-, handled, -, htends⟩ := h.tended
    obtain ⟨r, hr, -⟩ := htends j hj
    rw [Table.contains, hr]
    rfl
  · subst hts
    obtain ⟨s₀, hrun, hstep⟩ := h.of_concat
    cases steps_of_step? hstep with
    | @handled n queue hqueue =>
      have hqueued : Queued (n :: queue) before := hqueue ▸ hrun.kept.queued
      rw [hqueued.handledIn_next] at hc'
      cases hc'
      exact hrun.kept.records.isEmpty_configured s₀.now c'
  · obtain ⟨called, later, r, hts, hcalls⟩ := h.exists_calls rfl hp
    obtain ⟨time, hstanding⟩ := hcalls.standing
    exact ⟨called, later, r, time, hts, hcalls, hstanding⟩
  · rintro j before burst rest rfl hburst hrest part part' p p' hne hne' hpart hpart' hp hp'
    have hsame : part = part' := by
      obtain hle | hle := List.prefix_or_prefix_of_prefix hpart hpart'
      · exact hp.eq_of_prefix h hburst hrest hne hpart' hp' hle
      · exact (hp'.eq_of_prefix h hburst hrest hne' hpart hp hle).symm
    exact hp.unique (hsame ▸ hp')

open TwoLines in
/-- The host types while the document waits for quiet, and is quiet then. -/
def typing : List Turn :=
  [.told (.opened ⟨document, lineAt 0⟩), .handled, .elapsed 100,
    .told (.changed ⟨{ document with text := "y" }, lineAt 0⟩), .handled]

open TwoLines in
/-- The desk knows the text that was typed last, and the clock calls for one pass. -/
theorem latest_request_stands_typing : ∃ s,
    Run (.reading readers .builtIn) (typing ++ [.elapsed 250, .released]) s ∧
    (s.desk.latest.get? document.key).map (fun r => r.document.text) = some "y" ∧
    s.world.passes.length = 1 ∧
    ∀ part part' p p', part ≠ [] → part' ≠ [] → part <+: typing ++ [.elapsed 250, .released] →
      part' <+: typing ++ [.elapsed 250, .released] →
      TimerCalls (.reading readers .builtIn) part document.key p →
      TimerCalls (.reading readers .builtIn) part' document.key p' → p = p' := by
  have hrun : ((reading readers .builtIn).run? (typing ++ [.elapsed 250, .released])).map
      (fun s => s.world.passes.length) = some 1 := by decide +kernel
  obtain ⟨s, hs, hlength⟩ := Option.map_eq_some_iff.1 hrun
  have hrun := run_of_run? hs
  obtain ⟨hlatest, -, -, -, -, hburst⟩ := latest_request_stands hrun
  refine ⟨s, hrun, ?_, hlength, ?_⟩
  · rw [hlatest]
    decide +kernel
  · have hcalm : ∀ i < typing.length, 0 < i →
        Calm .builtIn document.key (typing.take i) = false := by decide +kernel
    have hnothing : handledIn typing [.elapsed 250, .released] = [] := rfl
    refine hburst document.key [] typing [.elapsed 250, .released] rfl ?_ fun n hn => ?_
    · intro mid later htyping hmid hlater
      have := hcalm mid.length (by simpa [htyping, List.length_pos_iff] using hlater)
        (List.length_pos_iff.2 hmid)
      rwa [htyping, List.take_left] at this
    · rw [List.nil_append, hnothing] at hn
      cases hn

end Service

end AnySpans.Passes
