import AnySpans.Passes.Service
import AnySpans.Proofs.Coverage

/-!
# No request is lost

When a service has nothing left to do, the lines of the last request for each open document were
looked at (`Service.last_request_served`), unless its language is not analysed, its document has a
syntax error or the pass broke off.  At any time such a request waits in the desk, or a pass for it is
about to begin or under way with a current ticket, or its lines are checked (`Service.Awaits`).
-/

namespace AnySpans.Documents

/-! ### The debouncer -/

namespace Debouncer

variable {d : Debouncer} {j : Key} {p : Pending}

/-- What waits for a document either goes on to wait or is due. -/
theorem get?_remaining (h : d.pending.get? j = some p) (now : Nat) :
    (d.remaining now).pending.get? j = some p ∨ p.request ∈ d.due now := by
  obtain ⟨row, hrow, rfl⟩ := Option.map_eq_some_iff.1 h
  cases hdue : d.isDue now row.2 with
  | true =>
    refine .inr (List.mem_map_of_mem (List.mem_filter.2 ⟨?_, hdue⟩))
    exact List.mem_map_of_mem (List.mem_of_find?_eq_some hrow)
  | false =>
    refine .inl ?_
    obtain ⟨hkey, before, after, hsplit, hbefore⟩ := List.find?_eq_some_iff_append.1 hrow
    have hkeep : (before.filter fun r => !d.isDue now r.2).find? (fun r => r.1 == j) = none :=
      List.find?_eq_none.2 fun r hr => by simpa using hbefore r (List.mem_filter.1 hr).1
    rw [Table.get?, remaining, hsplit, List.filter_append, List.find?_append, hkeep, Option.none_or,
      List.filter_cons_of_pos (by simp [hdue])]
    simp [hkey]

end Debouncer

end AnySpans.Documents

namespace AnySpans.Passes

open AnySpans.Documents AnySpans.Lines AnySpans.Settings AnySpans.Syntax

/-! ### Requests of a host -/

/-- The request a notice carries. -/
def Notice.request? : Notice → Option Request
  | .opened r | .changed r | .scrolled r | .focused r => some r
  | _ => none

/-- The last of the requests for a document that `f` takes from some notices. -/
def lastBy? (f : Notice → Option Request) (j : Key) (ns : List Notice) : Option Request :=
  ((ns.filterMap f).filter fun r => r.key == j).getLast?

/-- The last request for a document among some notices. -/
def lastRequest? (j : Key) (ns : List Notice) : Option Request := lastBy? Notice.request? j ns

/-- The notices that come in some turns. -/
def notices (ts : List Turn) : List Notice :=
  ts.filterMap fun
    | .told n => some n
    | _ => none

/-- The language of a request's document is analysed. -/
def Supported (r : Request) : Prop :=
  (Dialect.detect r.document.language r.document.text.toList).isSome = true

instance (r : Request) : Decidable (Supported r) := inferInstanceAs (Decidable (_ = true))

section

variable {f : Notice → Option Request} {j : Key} {ns : List Notice} {n : Notice} {r : Request}

theorem lastBy?_of_request (hn : f n = some r) (hr : (r.key == j) = true) :
    lastBy? f j (ns ++ [n]) = some r := by
  have : ([n].filterMap f).filter (fun r => r.key == j) = [r] := by simp [hn, hr]
  rw [lastBy?, List.filterMap_append, List.filter_append, this]
  exact List.getLast?_append_of_ne_nil _ (List.cons_ne_nil r [])

theorem lastBy?_of_other (hn : ∀ r, f n = some r → (r.key == j) = false) :
    lastBy? f j (ns ++ [n]) = lastBy? f j ns := by
  have : ([n].filterMap f).filter (fun r => r.key == j) = [] := by
    cases h : f n with
    | none => simp [h]
    | some r => simp [h, hn r h]
  rw [lastBy?, List.filterMap_append, List.filter_append, this, List.append_nil]
  rfl

end

/-! ### Requests and passes -/

namespace World

variable {w w' : World} {e : Event} {j : Key} {r : Request}

/-- All lines of a request are checked if its document is open. -/
def HasChecked (w : World) (j : Key) (r : Request) : Prop :=
  ∀ s, w.analyzer.registry.session? j = some s →
    ∀ line ∈ r.visible, line < limit → line ∈ s.checked

/-- A request for a document has been dealt with, or a pass will do so. -/
inductive Serves (w : World) (j : Key) (r : Request) : Prop
  | ready {p : Nat} : w.passes[p]? = some (.ready r) → Serves w j r
  | asking {p : Nat} {k : Work} : w.passes[p]? = some (.asking k) → k.request = r →
    (k.ticket.key == j) = true → w.analyzer.registry.Holds k.ticket k.token → Serves w j r
  | ended {p : Nat} {e : Ending} : w.passes[p]? = some (.done r e) →
    ((∃ f, e = .refused f) ∨ ∃ f, e = .broken f) → Serves w j r
  | checked : w.HasChecked j r → Serves w j r

/-- A pass that begins for a supported request asks with a ticket that holds, or ends with a flaw, or
finds the document closed or its lines checked. -/
theorem serves_of_begins {s : Stage} {p : Nat} (hw : w.Ordered) (hr : (r.key == j) = true)
    (hs : Supported r) (hb : w.analyzer.Begins r w'.analyzer s) (hp : w'.passes[p]? = some s) :
    w'.Serves j r := by
  have hasks : ∀ {t token lines tree}, s = w.analyzer.beginAsking r t token lines tree →
      w'.Serves j r := by
    intro t token lines tree hbegin
    obtain ⟨f, hf⟩ | ⟨cs, -, hcs⟩ := w.analyzer.beginAsking_cases r t token lines tree
    · exact .ended (hp.trans (congrArg some (hbegin.trans hf))) (.inr ⟨f, rfl⟩)
    · rw [hcs] at hbegin
      rw [hbegin] at hb hp
      obtain ⟨-, hkey, -⟩ := hb.holds
      exact .asking hp rfl (by rw [hkey]; exact hr) (hb.holds_after hw.sound)
  generalize ha : w'.analyzer = a at hb
  cases hb with
  | unsupported hd =>
    rw [Supported, hd] at hs
    cases hs
  | closed hd hplan =>
    refine .checked fun s hs => ?_
    rw [ha, ← Registry.session?_congr hr] at hs
    rw [Registry.plan, hs] at hplan
    dsimp only at hplan
    split at hplan <;> cases hplan
  | cached hd hplan =>
    refine .checked fun s hs line hline hlt => ?_
    rw [ha, Analyzer.registry_render, ← Registry.session?_congr hr] at hs
    rw [Registry.plan, hs] at hplan
    dsimp only at hplan
    split at hplan
    · rename_i hempty
      by_contra hunchecked
      exact IntervalSet.not_mem_of_isEmpty _ hempty line
        (Session.mem_uncovered_iff.2 ⟨⟨hline, hlt⟩, hunchecked⟩)
    · cases hplan
  | reused => exact hasks rfl
  | refused => exact .ended hp (.inl ⟨_, rfl⟩)
  | parsed => exact hasks rfl

/-- A request goes on to be served unless its document is opened, closed or edited. -/
theorem Serves.step (h : w.Serves j r) (hw : w.Ordered) (hr : (r.key == j) = true)
    (hs : Supported r) (hstep : w.Steps e w') (he : e.disturbs j = false) : w'.Serves j r := by
  cases h with
  | ready hp =>
    obtain ⟨s, hp', hb⟩ := hstep.becomes hp
    cases hb with
    | same => exact .ready hp'
    | begun hb => exact serves_of_begins hw hr hs hb hp'
  | @asking p k hp hk hkey hholds =>
    have he' : e.disturbs k.ticket.key = false := by
      have : ∀ i : Key, (i == k.ticket.key) = (i == j) := fun i => BEq.congr_right hkey
      cases e <;> simp only [Event.disturbs, this] at he ⊢ <;> exact he
    obtain ⟨s, hp', hb⟩ := hstep.becomes hp
    cases hb with
    | same => exact .asking hp' hk hkey (hstep.holds hw.sound he' hholds)
    | moved => exact .asking hp' hk hkey (hstep.holds hw.sound he' hholds)
    | stale hc =>
      have := hholds.isCurrent
      rw [← Registry.commit?_isSome k.request.visible k.fan.hits, hc] at this
      cases this
    | committed hc =>
      obtain ⟨s₀, -, hs₀⟩ := Registry.session?_of_commit? hc hkey
      refine .checked fun s hs line hline hlt => ?_
      obtain rfl := Option.some.inj (hs₀.symm.trans hs)
      exact (Session.mem_checked_withResults _ _ _).2 (.inr ⟨hk ▸ hline, hlt⟩)
  | ended hp hflaw =>
    obtain ⟨s, hp', hb⟩ := hstep.becomes hp
    cases hb with
    | same => exact .ended hp' hflaw
  | checked hc =>
    refine .checked fun s hs line hline hlt => ?_
    obtain ⟨s₀, h₀, hsub⟩ := hstep.session_before he hs
    exact hsub line (hc s₀ h₀ line hline hlt)

theorem step_cases (w : World) (e : Event) : w.step e = w ∨ w.Steps e (w.step e) := by
  cases h : w.step? e with
  | none => exact .inl (by rw [World.step, h, Option.getD_none])
  | some w' =>
    have : w.step e = w' := by rw [World.step, h, Option.getD_some]
    exact .inr (this ▸ steps_of_step? h)

theorem Ordered.foldl (h : w.Ordered) (es : List Event) : (es.foldl World.step w).Ordered := by
  induction es generalizing w with
  | nil => exact h
  | cons e es ih =>
    refine ih ?_
    obtain hsame | hstep := w.step_cases e
    · rwa [hsame]
    · exact h.step hstep

/-- Over some events that do not disturb a document, it is not opened and its requests go on to be
served. -/
theorem undisturbed_foldl {es : List Event} (hw : w.Ordered)
    (hes : ∀ e ∈ es, e.disturbs j = false) :
    ((es.foldl World.step w).analyzer.registry.isOpen j = true →
      w.analyzer.registry.isOpen j = true) ∧
    ∀ r : Request, (r.key == j) = true → Supported r → w.Serves j r →
      (es.foldl World.step w).Serves j r := by
  induction es generalizing w with
  | nil => exact ⟨id, fun _ _ _ h => h⟩
  | cons e es ih =>
    have hrest : ∀ e ∈ es, e.disturbs j = false := fun e he => hes e (List.mem_cons_of_mem _ he)
    rw [List.foldl_cons]
    obtain hsame | hstep := w.step_cases e
    · rw [hsame]
      exact ih hw hrest
    · have he := hes e List.mem_cons_self
      obtain ⟨hopen, hserves⟩ := ih (hw.step hstep) hrest
      refine ⟨fun h => ?_, fun r hr hs h => hserves r hr hs (h.step hw hr hs hstep he)⟩
      obtain ⟨s, hs⟩ := Registry.isOpen_iff.1 (hopen h)
      obtain ⟨s₀, h₀, -⟩ := hstep.session_before he hs
      exact Registry.isOpen_iff.2 ⟨s₀, h₀⟩

theorem foldl_spawned (w : World) (rs : List Request) :
    (rs.map Event.spawned).foldl World.step w =
      { w with passes := w.passes ++ rs.map .ready } := by
  induction rs generalizing w with
  | nil => rw [List.map_nil, List.map_nil, List.append_nil, List.foldl_nil]
  | cons r rs ih =>
    rw [List.map_cons, List.foldl_cons, ih]
    show ({ w with passes := (w.passes ++ [.ready r]) ++ rs.map .ready } : World) = _
    rw [List.append_assoc, List.singleton_append, List.map_cons]

/-- A request for which a pass is called for is served. -/
theorem serves_of_spawned {rs : List Request} (h : r ∈ rs) :
    ((rs.map Event.spawned).foldl World.step w).Serves j r := by
  rw [foldl_spawned]
  obtain ⟨i, hi⟩ := List.mem_iff_getElem?.1 (List.mem_map_of_mem (f := Stage.ready) h)
  refine .ready (p := w.passes.length + i) ?_
  rwa [List.getElem?_append_right (Nat.le_add_right _ _), Nat.add_sub_cancel_left]

end World

/-! ### The desk -/

/-- A request waits at the desk or is served. -/
def Awaits (w : World) (d : Desk) (j : Key) (r : Request) : Prop :=
  (∃ p, d.debouncer.pending.get? j = some p ∧ p.request = r) ∨ w.Serves j r

/-- The last request for a document, if it is open, is known at the desk and not lost. -/
def Tends (w : World) (d : Desk) (ns : List Notice) (j : Key) : Prop :=
  w.analyzer.registry.isOpen j = true → ∃ r, d.latest.get? j = some r ∧
    lastRequest? j ns = some r ∧ (r.key == j) = true ∧ (Supported r → Awaits w d j r)

section

variable {w : World} {d d' : Desk} {ns ns' : List Notice} {j : Key} {es : List Event}

/-- Nothing is lost while neither the document is disturbed nor a request for it comes, if what waits
at the desk goes on to wait or is served. -/
theorem Tends.calm (h : Tends w d ns j) (hw : w.Ordered) (hes : ∀ e ∈ es, e.disturbs j = false)
    (hlatest : d'.latest.get? j = d.latest.get? j)
    (hlast : lastRequest? j ns' = lastRequest? j ns)
    (hpending : ∀ p, d.debouncer.pending.get? j = some p → d.latest.get? j = some p.request →
      Awaits (es.foldl World.step w) d' j p.request) :
    Tends (es.foldl World.step w) d' ns' j := by
  obtain ⟨hopen, hserves⟩ := World.undisturbed_foldl hw hes
  intro ho
  obtain ⟨r, hr, hns, hkey, hawaits⟩ := h (hopen ho)
  refine ⟨r, hlatest.trans hr, hlast.trans hns, hkey, fun hs => ?_⟩
  obtain ⟨p, hp, rfl⟩ | hserved := hawaits hs
  · exact hpending p hp hr
  · exact .inr (hserves r hkey hs hserved)

/-- A request that comes is the last one for its document and waits; other documents are not
concerned. -/
theorem tends_take (h : Tends w d ns j) (hw : w.Ordered) {n : Notice} {r : Request}
    (hn : n.request? = some r) (now : Nat)
    (hes : (r.key == j) = false → ∀ e ∈ es, e.disturbs j = false) :
    Tends (es.foldl World.step w) (d.take r now) (ns ++ [n]) j := by
  cases hkey : r.key == j with
  | true =>
    refine fun _ => ⟨r, ?_, lastBy?_of_request hn hkey, hkey, fun _ => .inl ⟨⟨r, now⟩, ?_, rfl⟩⟩
    · exact (d.latest.get?_put r.key j r).trans (if_pos hkey)
    · exact (d.debouncer.pending.get?_put r.key j ⟨r, now⟩).trans (if_pos hkey)
  | false =>
    have hne : ¬ (r.key == j) = true := Bool.eq_false_iff.1 hkey
    refine h.calm hw (hes hkey) ?_ ?_ fun p hp _ => .inl ⟨p, ?_, rfl⟩
    · exact (d.latest.get?_put r.key j r).trans (if_neg hne)
    · refine lastBy?_of_other fun r' hr' => ?_
      rw [hn] at hr'
      cases hr'
      exact hkey
    · exact ((d.debouncer.pending.get?_put r.key j ⟨r, now⟩).trans (if_neg hne)).trans hp

/-- Handling a notice loses no request. -/
theorem tends_handle (h : Tends w d ns j) (hw : w.Ordered) (now : Nat) (n : Notice) :
    Tends ((d.handle now n).2.foldl World.step w) (d.handle now n).1 (ns ++ [n]) j := by
  cases n with
  | opened r =>
    refine tends_take h hw rfl now fun hkey e he => ?_
    rw [List.mem_singleton.1 he]
    exact hkey
  | changed r =>
    refine tends_take h hw rfl now fun hkey e he => ?_
    rw [List.mem_singleton.1 he]
    exact hkey
  | scrolled r => exact tends_take h hw rfl now fun _ _ he => absurd he List.not_mem_nil
  | focused r => exact tends_take h hw rfl now fun _ _ he => absurd he List.not_mem_nil
  | closed k =>
    cases hkey : k == j with
    | true =>
      intro ho
      obtain ⟨s, hs⟩ := Registry.isOpen_iff.1 ho
      cases (w.analyzer.registry.session?_close hkey).symm.trans hs
    | false =>
      have hne : ¬ (k == j) = true := Bool.eq_false_iff.1 hkey
      refine h.calm hw (fun e he => ?_) ?_ ?_ fun p hp _ => .inl ⟨p, ?_, rfl⟩
      · rw [List.mem_singleton.1 he]
        exact hkey
      · exact (d.latest.get?_erase k j).trans (if_neg hne)
      · exact lastBy?_of_other fun r hr => by cases hr
      · exact ((d.debouncer.pending.get?_erase k j).trans (if_neg hne)).trans hp
  | diagnosed k ranges =>
    refine h.calm hw (fun e he => ?_) rfl ?_ fun p hp _ => .inl ⟨p, hp, rfl⟩
    · rw [List.mem_singleton.1 he]
      rfl
    · exact lastBy?_of_other fun r hr => by cases hr
  | configured c =>
    refine h.calm hw (fun e he => ?_) rfl ?_ fun p _ hlatest => .inr ?_
    · obtain rfl | he := List.mem_cons.1 he
      · rfl
      · obtain ⟨r, -, rfl⟩ := List.mem_map.1 he
        rfl
    · exact lastBy?_of_other fun r hr => by cases hr
    · obtain ⟨row, hrow, hr⟩ := Option.map_eq_some_iff.1 hlatest
      refine World.serves_of_spawned (List.mem_map.2 ⟨row, ?_, hr⟩)
      exact List.mem_of_find?_eq_some hrow

/-- Calling for the passes that are due loses no request. -/
theorem tends_release (h : Tends w d ns j) (hw : w.Ordered) (now : Nat) :
    Tends ((d.release now).2.foldl World.step w) (d.release now).1 ns j := by
  refine h.calm hw (fun e he => ?_) rfl rfl fun p hp _ => ?_
  · obtain ⟨r, -, rfl⟩ := List.mem_map.1 he
    rfl
  · obtain hp | hdue := Debouncer.get?_remaining hp now
    · exact .inl ⟨p, hp, rfl⟩
    · exact .inr (World.serves_of_spawned hdue)

end

/-! ### Turns -/

theorem Event.disturbs_of_isAdvance (e : Event) (h : e.isAdvance = true) (j : Key) :
    e.disturbs j = false := by
  cases e <;> first | rfl | cases h

namespace Service

variable {start s s' : Service} {ts : List Turn} {t : Turn} {ns : List Notice}

/-- What a turn of a service can be. -/
inductive Steps (s : Service) : Turn → Service → Prop
  | told (n : Notice) : Steps s (.told n) { s with queue := s.queue ++ [n] }
  | handled {n : Notice} {queue : List Notice} : s.queue = n :: queue →
    Steps s .handled ({ s with queue }.apply (s.desk.handle s.now n))
  | released : Steps s .released (s.apply (s.desk.release s.now))
  | elapsed (duration : Nat) : Steps s (.elapsed duration) { s with now := s.now + duration }
  | advanced {e : Event} {w : World} : e.isAdvance = true → s.world.step? e = some w →
    Steps s (.advanced e) { s with world := w }

theorem step?_released_eq_some_iff : s.step? .released = some s' ↔
    ∃ time, s.desk.debouncer.nextDue = some time ∧ time ≤ s.now ∧
      s.apply (s.desk.release s.now) = s' := by
  rw [step?]
  cases s.desk.debouncer.nextDue <;> simp

theorem steps_of_step? (h : s.step? t = some s') : s.Steps t s' := by
  cases t with
  | told n => exact Option.some.inj h ▸ .told n
  | handled =>
    simp only [step?] at h
    split at h
    · exact Option.some.inj h ▸ .handled ‹_›
    · cases h
  | released =>
    obtain ⟨time, -, -, rfl⟩ := step?_released_eq_some_iff.1 h
    exact .released
  | elapsed duration => exact Option.some.inj h ▸ .elapsed duration
  | advanced e =>
    simp only [step?] at h
    split at h
    · obtain ⟨w, hw, rfl⟩ := Option.map_eq_some_iff.1 h
      exact .advanced ‹_› hw
    · cases h

/-- The notices so far are handled or wait, and no request is lost. -/
structure Tended (s : Service) (ns : List Notice) : Prop where
  ordered : s.world.Ordered
  requests : ∃ handled, ns = handled ++ s.queue ∧ ∀ j, Tends s.world s.desk handled j

theorem tended_reading (R : Readers) (c : Config) : (reading R c).Tended [] where
  ordered := World.ordered_reading R c
  requests := ⟨[], rfl, fun j h => by cases h⟩

theorem Tended.step (h : s.Tended ns) (hs : s.Steps t s') : s'.Tended (ns ++ notices [t]) := by
  obtain ⟨hw, handled, hns, htends⟩ := h
  cases hs with
  | told n => exact ⟨hw, handled, by rw [hns, List.append_assoc]; rfl, htends⟩
  | @handled n queue hqueue =>
    refine ⟨hw.foldl _, handled ++ [n], ?_, fun j => tends_handle (htends j) hw s.now n⟩
    rw [hns, hqueue]
    show handled ++ n :: queue ++ [] = handled ++ [n] ++ queue
    rw [List.append_nil, List.append_assoc, List.singleton_append]
  | released =>
    refine ⟨hw.foldl _, handled, ?_, fun j => tends_release (htends j) hw s.now⟩
    exact (List.append_nil ns).trans hns
  | elapsed duration => exact ⟨hw, handled, (List.append_nil ns).trans hns, htends⟩
  | @advanced e w hadvance hstep =>
    have hfold : [e].foldl World.step s.world = w := by
      rw [List.foldl_cons, List.foldl_nil, World.step, hstep, Option.getD_some]
    refine ⟨hw.step (World.steps_of_step? hstep), handled, (List.append_nil ns).trans hns,
      fun j => ?_⟩
    show Tends w s.desk handled j
    rw [← hfold]
    refine (htends j).calm hw (fun e' he' => ?_) rfl rfl fun p hp _ => .inl ⟨p, hp, rfl⟩
    rw [List.mem_singleton.1 he']
    exact e.disturbs_of_isAdvance hadvance j

/-! ### Runs -/

theorem Run.tended {R : Readers} {c : Config} (h : Run (.reading R c) ts s) :
    s.Tended (notices ts) := by
  induction h with
  | start => exact tended_reading R c
  | step _ hs ih =>
    rw [notices, List.filterMap_append]
    exact ih.step (steps_of_step? hs)

/-- When a service has nothing left to do, an open document has a last request, and if its language
is analysed and no pass for it was refused or broke off, all of its lines are checked. -/
theorem last_request_served {R : Readers} {c : Config} (h : Run (.reading R c) ts s)
    (hquiet : s.isQuiet = true) {j : Key} {session : Session}
    (hs : s.world.analyzer.registry.session? j = some session) :
    ∃ r, lastRequest? j (notices ts) = some r ∧
      (Supported r → (∀ f, .done r (.refused f) ∉ s.world.passes) →
        (∀ f, .done r (.broken f) ∉ s.world.passes) →
        ∀ line ∈ r.visible, line < limit → line ∈ session.checked) := by
  obtain ⟨hw, handled, hns, htends⟩ := h.tended
  simp only [isQuiet, Bool.and_eq_true, List.isEmpty_iff, List.all_eq_true] at hquiet
  obtain ⟨⟨hqueue, hempty⟩, hdone⟩ := hquiet
  rw [hqueue, List.append_nil] at hns
  obtain ⟨r, -, hlast, -, hawaits⟩ := htends j (Registry.isOpen_iff.2 ⟨session, hs⟩)
  refine ⟨r, hns ▸ hlast, fun hsupported hrefused hbroken => ?_⟩
  obtain ⟨p, hp, -⟩ | hserved := hawaits hsupported
  · have hrows : s.desk.debouncer.pending.rows = [] := List.isEmpty_iff.1 hempty
    rw [Table.get?, hrows] at hp
    cases hp
  · cases hserved with
    | ready hp => cases hdone _ (List.mem_of_getElem? hp)
    | asking hp => cases hdone _ (List.mem_of_getElem? hp)
    | ended hp hflaw =>
      obtain ⟨f, rfl⟩ | ⟨f, rfl⟩ := hflaw
      · exact absurd (List.mem_of_getElem? hp) (hrefused f)
      · exact absurd (List.mem_of_getElem? hp) (hbroken f)
    | checked hc => exact hc session hs

/-! ### Scrolling during a pass -/

/-- The service after some turns; none if one of them is not possible. -/
def run? (s : Service) (ts : List Turn) : Option Service := ts.foldlM step? s

theorem run_of_run? (h : s.run? ts = some s') : Run s ts s' := by
  have hgo : ∀ (rest done : List Turn) (s₁ : Service), Run s done s₁ →
      s₁.run? rest = some s' → Run s (done ++ rest) s' := by
    intro rest
    induction rest with
    | nil =>
      intro done s₁ hrun hs
      cases hs
      rwa [List.append_nil]
    | cons t rest ih =>
      intro done s₁ hrun hs
      obtain ⟨s₂, hstep, hrest⟩ := Option.bind_eq_some_iff.1 ((List.foldlM_cons ..).symm.trans hs)
      have := ih (done ++ [t]) s₂ (hrun.step hstep) hrest
      rwa [List.append_assoc, List.singleton_append] at this
  exact hgo ts [] s .start h

open TwoLines in
/-- The host scrolls from the first line to the second one while the pass over the first one is under
way, and changes the settings before the new request is due. -/
def scrolling : List Turn :=
  [.told (.opened ⟨document, lineAt 0⟩), .handled, .elapsed 250, .released,
    .advanced (.begun 0), .advanced (.asked 0), .told (.scrolled ⟨document, lineAt 1⟩),
    .told (.configured .builtIn), .handled, .handled, .advanced (.begun 1), .advanced (.asked 1),
    .advanced (.answered 1 0 (some signature)), .advanced (.finished 1),
    .advanced (.answered 0 0 (some signature)), .advanced (.finished 0)]

/-- Whether a pass has come to an end with an outcome. -/
def hasOutcome : Stage → Bool
  | .done _ (.outcome _) => true
  | _ => false

open TwoLines in
/-- In the end the second line is checked. -/
theorem second_line_served : ∃ s session, Run (.reading readers .builtIn) scrolling s ∧
    s.isQuiet = true ∧ s.world.analyzer.registry.session? document.key = some session ∧
    lastRequest? document.key (notices scrolling) = some ⟨document, 1, 1, by decide⟩ ∧
    1 ∈ session.checked := by
  have hrun : (((reading readers .builtIn).run? scrolling).bind fun s =>
      (s.world.analyzer.registry.session? document.key).map fun _ =>
        s.isQuiet && s.world.passes.all hasOutcome) = some true := by decide +kernel
  obtain ⟨s, hs, hopen⟩ := Option.bind_eq_some_iff.1 hrun
  obtain ⟨session, hsession, hgood⟩ := Option.map_eq_some_iff.1 hopen
  obtain ⟨hquiet, hpasses⟩ := Bool.and_eq_true_iff.1 hgood
  have hrun := run_of_run? hs
  obtain ⟨r, hr, hserved⟩ := last_request_served hrun hquiet hsession
  have hlast : lastRequest? document.key (notices scrolling) = some ⟨document, 1, 1, by decide⟩ := by
    rfl
  obtain rfl := Option.some.inj (hlast.symm.trans hr)
  have houtcome : ∀ r e, Stage.done r e ∈ s.world.passes → ∃ o, e = .outcome o := by
    intro r e he
    have := List.all_eq_true.1 hpasses _ he
    cases e with
    | outcome o => exact ⟨o, rfl⟩
    | refused f => cases this
    | broken f => cases this
  refine ⟨s, session, hrun, hquiet, hsession, hlast, hserved (by decide) (fun f hf => ?_)
    (fun f hf => ?_) 1 ⟨by decide, by decide⟩ (by decide)⟩
  · obtain ⟨o, ho⟩ := houtcome _ _ hf
    cases ho
  · obtain ⟨o, ho⟩ := houtcome _ _ hf
    cases ho

end Service

end AnySpans.Passes
