import AnySpans.Proofs.Answering
import Mathlib.Algebra.Order.BigOperators.Group.List
import Mathlib.Algebra.Order.Group.Nat

/-!
# Schedules come to an end

A schedule looks at what its passes can look at (`Schedule.items`) until nothing is left, lets the
source work until it can do no more, and moves the clock on to what is due.  As long as a pass that
asks a reliable source is looked after (`Errand.Looking`), each round brings it closer to its end: a
question is settled, or the clock comes closer to the deadline of one (`Errand.ends_of_ready`).
-/

namespace AnySpans.Passes

open AnySpans.Documents AnySpans.Signature AnySpans.Syntax AnySpans.Text

namespace Schedule

variable {σ : Type} {src : Source σ} {s s' s₁ s₂ : Schedule σ} {p : Nat} {k : Work}
  {its : List Item} {c : Call}

/-! ### What is looked at -/

theorem itemsOf_setItems (h : p < s.items.length) (its : List Item) :
    (s.setItems p its).itemsOf p = its := by
  rw [itemsOf, setItems, List.getD_eq_getElem?_getD, List.getElem?_set_self h]
  rfl

theorem length_setItems (s : Schedule σ) (p : Nat) (its : List Item) :
    (s.setItems p its).items.length = s.items.length := List.length_set

/-- Whom the schedule lets go on next stays as it is. -/
structure Framed (s s' : Schedule σ) : Prop where
  ready : s'.ready = s.ready
  items : s'.items.length = s.items.length

theorem Framed.trans (h : s.Framed s₁) (h' : s₁.Framed s₂) : s.Framed s₂ :=
  ⟨h'.ready.trans h.ready, h'.items.trans h.items⟩

theorem framed_setItems (s : Schedule σ) (p : Nat) (its : List Item) :
    s.Framed (s.setItems p its) := ⟨rfl, s.length_setItems p its⟩

theorem framed_fill (s : Schedule σ) (p : Nat) : s.Framed (s.fill p) := by
  unfold fill
  split
  · exact ⟨rfl, rfl⟩
  · exact s.framed_setItems _ _

theorem framed_settleCall (s : Schedule σ) (c : Call) (e : Event) : s.Framed (s.settleCall c e) :=
  ⟨(framed_fill _ c.pass).ready, (framed_fill _ c.pass).items⟩

theorem LooksAt.framed {r : Schedule σ × Bool} (h : LooksAt src s c r) : s.Framed r.1 := by
  cases h with
  | absent | pending => exact ⟨rfl, rfl⟩
  | dropped | answered | expired =>
    exact ⟨(framed_settleCall _ _ _).ready, (framed_settleCall _ _ _).items⟩

theorem AsksNext.framed (h : AsksNext src s p k s') : s.Framed s' := by
  cases h with
  | skipped => exact ⟨(framed_fill _ p).ready, (framed_fill _ p).items⟩
  | full => exact ⟨rfl, rfl⟩
  | asked => exact ⟨(looksAt src _ _).framed.ready, (looksAt src _ _).framed.items⟩

theorem framed_lookAround (src : Source σ) (p fuel : Nat) (s : Schedule σ) :
    s.Framed (lookAround src p fuel s) := by
  induction fuel generalizing s with
  | zero => exact ⟨rfl, rfl⟩
  | succ fuel ih =>
    unfold lookAround
    split
    · exact ⟨rfl, rfl⟩
    · split
      · split <;> exact ⟨rfl, rfl⟩
      · rename_i items _
        exact ((s.framed_setItems p items).trans (asksNext src _ p _).framed).trans (ih _)
      · rename_i items _
        exact ((s.framed_setItems p items).trans (looksAt src _ _).framed).trans (ih _)

theorem framed_goOn (src : Source σ) (s : Schedule σ) (p : Nat) : s.Framed (s.goOn src p) := by
  unfold goOn
  split
  · have hbegun : s.Framed ({ s with world := s.world.step (.begun p) }.fill p) :=
      ⟨(framed_fill _ p).ready, (framed_fill _ p).items⟩
    exact hbegun.trans (framed_lookAround src p _ _)
  · exact framed_lookAround src p _ s
  · exact ⟨rfl, rfl⟩

/-! ### Waking -/

theorem mem_ready_wakePass (s : Schedule σ) (p : Nat) : p ∈ (s.wakePass p).ready := by
  unfold wakePass
  split
  · rename_i h
    exact List.contains_iff_mem.1 h
  · exact List.mem_append_right _ (List.mem_singleton_self p)

theorem mem_itemsOf_wake (h : c.pass < s.items.length) :
    .open' c.number ∈ (s.wake c).itemsOf c.pass ∧
      (∀ it ∈ s.itemsOf c.pass, it ∈ (s.wake c).itemsOf c.pass) ∧
      ((s.wake c).itemsOf c.pass).count .next = (s.itemsOf c.pass).count .next ∧
      (s.wake c).items.length = s.items.length := by
  have hpass : ∀ (s : Schedule σ) (p : Nat), (s.wakePass p).items = s.items := by
    intro s p
    unfold wakePass
    split <;> rfl
  rw [itemsOf, wake, hpass]
  split
  · rename_i hmem
    exact ⟨List.contains_iff_mem.1 hmem, fun _ h => h, rfl, rfl⟩
  · have hitems := itemsOf_setItems h (s.itemsOf c.pass ++ [.open' c.number])
    rw [itemsOf] at hitems
    rw [hitems]
    refine ⟨List.mem_append_right _ (List.mem_singleton_self _),
      fun it hit => List.mem_append_left _ hit, ?_, s.length_setItems _ _⟩
    rw [List.count_append, List.count_singleton]
    rfl

/-- For each question that a pass could put there is an item. -/
structure Filled (s : Schedule σ) (p : Nat) (k : Work) : Prop where
  inside : p < s.items.length
  next : (s.itemsOf p).count .next = min (k.fan.limit - k.fan.running.length) k.fan.waiting.length

/-- How often a pass can look at something at most before it has to wait. -/
def room (s : Schedule σ) (p : Nat) (k : Work) : Nat :=
  (s.itemsOf p).length + (k.fan.waiting.length - (s.itemsOf p).count .next)

/-- Filling up adds items for the questions that a pass could put. -/
theorem fill_spec (hp : s.world.passes[p]? = some (.asking k)) (hin : p < s.items.length)
    (hle : (s.itemsOf p).count .next ≤
      min (k.fan.limit - k.fan.running.length) k.fan.waiting.length) :
    (s.fill p).Filled p k ∧ (s.fill p).room p k = s.room p k ∧
      ∀ it ∈ s.itemsOf p, it ∈ (s.fill p).itemsOf p := by
  have hfill : s.fill p = s.setItems p (s.itemsOf p ++ List.replicate
      (min (k.fan.limit - (k.fan.running.length + (s.itemsOf p).count .next))
        (k.fan.waiting.length - (s.itemsOf p).count .next)) .next) := by
    rw [fill, World.asking?_eq_some_iff.2 hp]
  have hitems := itemsOf_setItems hin (s.itemsOf p ++ List.replicate
    (min (k.fan.limit - (k.fan.running.length + (s.itemsOf p).count .next))
      (k.fan.waiting.length - (s.itemsOf p).count .next)) .next)
  rw [← hfill] at hitems
  refine ⟨⟨?_, ?_⟩, ?_, fun it hit => ?_⟩
  · rw [hfill, length_setItems]
    exact hin
  · rw [hitems, List.count_append, List.count_replicate_self]
    omega
  · rw [room, room, hitems, List.count_append, List.count_replicate_self, List.length_append,
      List.length_replicate]
    omega
  · rw [hitems]
    exact List.mem_append_left _ hit

/-! ### Enough fuel -/

/-- With enough fuel a schedule settles so. -/
def SettlesTo (src : Source σ) (s s' : Schedule σ) : Prop :=
  ∃ n, ∀ fuel, n ≤ fuel → settle src fuel s = s'

/-- With enough fuel and turns a schedule comes to its stop so. -/
def StopsAt (src : Source σ) (stop : Schedule σ → Bool) (s s' : Schedule σ) : Prop :=
  ∃ n, ∀ fuel turns, n ≤ fuel → n ≤ turns → runUntil src fuel stop turns s = s'

/-- A pass has ended. -/
def hasEnded (p : Nat) (s : Schedule σ) : Bool := s.world.passes[p]?.any Stage.isDone

/-- Nothing can go on while the clock stands still. -/
structure AtRest (src : Source σ) (s : Schedule σ) : Prop where
  ready : s.ready = []
  work : src.work s.source s.now = none

namespace SettlesTo

theorem goOn {ready : List Nat} (hr : s.ready = p :: ready)
    (h : SettlesTo src ({ s with ready }.goOn src p) s') : SettlesTo src s s' := by
  obtain ⟨n, hn⟩ := h
  refine ⟨n + 1, fun fuel hfuel => ?_⟩
  obtain ⟨fuel, rfl⟩ := Nat.exists_eq_add_of_le' hfuel
  rw [← Nat.add_assoc, settle, hr]
  exact hn _ (Nat.le_add_left n fuel)

theorem work {x : σ} {calls : List Call} (hr : s.ready = [])
    (hw : src.work s.source s.now = some (x, calls))
    (h : SettlesTo src (calls.foldl wake { s with source := x }) s') : SettlesTo src s s' := by
  obtain ⟨n, hn⟩ := h
  refine ⟨n + 1, fun fuel hfuel => ?_⟩
  obtain ⟨fuel, rfl⟩ := Nat.exists_eq_add_of_le' hfuel
  rw [← Nat.add_assoc, settle]
  split
  · rename_i hr'
    cases hr.symm.trans hr'
  · rw [hw]
    exact hn _ (Nat.le_add_left n fuel)

theorem rest (h : s.AtRest src) : SettlesTo src s s := by
  refine ⟨1, fun fuel hfuel => ?_⟩
  obtain ⟨fuel, rfl⟩ := Nat.exists_eq_add_of_le' hfuel
  rw [settle, h.ready]
  dsimp only
  rw [h.work]

end SettlesTo

theorem SettlesTo.runs (h : SettlesTo src s s') (may : Schedule σ → Nat → Prop) :
    ∃ es, Runs src may s es s' := by
  obtain ⟨n, hn⟩ := h
  exact hn n (Nat.le_refl n) ▸ runs_settle src may n s

theorem goOn_of_done (h : ∀ st, s.world.passes[p]? = some st → st.isDone = true) :
    s.goOn src p = s := by
  unfold goOn
  split
  · cases h _ ‹_›
  · cases h _ ‹_›
  · rfl

theorem StopsAt.stop {stop : Schedule σ → Bool} (h : SettlesTo src s s') (hs : stop s' = true) :
    StopsAt src stop s s' := by
  obtain ⟨n, hn⟩ := h
  refine ⟨n + 1, fun fuel turns hfuel hturns => ?_⟩
  obtain ⟨turns, rfl⟩ := Nat.exists_eq_add_of_le' (Nat.le_trans (Nat.le_add_left 1 n) hturns)
  rw [runUntil, hn fuel (by omega)]
  exact if_pos hs

theorem StopsAt.turn {stop : Schedule σ → Bool} {time : Nat} (h : SettlesTo src s s₁)
    (hs : stop s₁ = false) (hd : s₁.due src = some time)
    (hrest : StopsAt src stop (s₁.moveTo (max time s₁.now)) s') : StopsAt src stop s s' := by
  obtain ⟨n, hn⟩ := h
  obtain ⟨m, hm⟩ := hrest
  refine ⟨n + m + 1, fun fuel turns hfuel hturns => ?_⟩
  obtain ⟨turns, rfl⟩ := Nat.exists_eq_add_of_le' (Nat.le_trans (Nat.le_add_left 1 (n + m)) hturns)
  rw [runUntil, hn fuel (by omega), hs, if_neg Bool.false_ne_true, hd]
  exact hm fuel turns (by omega) (by omega)

end Schedule

namespace Errand

variable {σ : Type} {inv : Nat → σ → Nat → List Posed → Prop} {load : σ → Nat → Nat} {src : Source σ}
  {patient : Prop} {i : Errand} {s₀ s s' s₁ s₂ : Schedule σ} {k k' k₁ k₂ : Work} {c : Call}
  {its : List Item}

/-- A pass that asks is looked after: there are items for all it could ask and for all that is due. -/
structure Looking (i : Errand) (inv : Nat → σ → Nat → List Posed → Prop) (s : Schedule σ) (k : Work) :
    Prop extends Asking i inv s k where
  filled : s.Filled i.pass k
  prompt : ∀ c time, (c, time) ∈ s.deadlines → time ≤ s.now → .open' c.number ∈ s.itemsOf i.pass

/-- While the clock stands still, a question is settled or put, or nothing of that changes. -/
structure Comes (load : σ → Nat → Nat) (s : Schedule σ) (k : Work) (s' : Schedule σ) (k' : Work) :
    Prop where
  now : s'.now = s.now
  closer : k'.fan.load < k.fan.load ∨
    k'.fan = k.fan ∧ s'.deadlines = s.deadlines ∧ load s'.source s.now ≤ load s.source s.now

theorem Comes.refl : Comes load s k s k := ⟨rfl, .inr ⟨rfl, rfl, Nat.le_refl _⟩⟩

theorem Comes.trans (h : Comes load s k s₁ k₁) (h' : Comes load s₁ k₁ s₂ k₂) :
    Comes load s k s₂ k₂ where
  now := h'.now.trans h.now
  closer := by
    have hnow := h.now
    obtain hlt | ⟨hfan, hdeadlines, hle⟩ := h.closer
    · obtain hlt' | ⟨hfan', -⟩ := h'.closer
      · exact .inl (hlt'.trans hlt)
      · exact .inl (hfan' ▸ hlt)
    · obtain hlt' | ⟨hfan', hdeadlines', hle'⟩ := h'.closer
      · exact .inl (hfan ▸ hlt')
      · rw [hnow] at hle'
        exact .inr ⟨hfan'.trans hfan, hdeadlines'.trans hdeadlines, hle'.trans hle⟩

/-! ### Looking at what can be looked at -/

/-- A question is settled; then there are items for what can be asked in its place. -/
theorem Asking.settleCall (h : i.Asking inv s k) (hfilled : s.Filled i.pass k) {q : Query}
    {number : Nat} {x : σ} {qs : List Posed}
    (hprompt : ∀ c time, c ≠ ⟨i.pass, number⟩ → (c, time) ∈ s.deadlines → time ≤ s.now →
      .open' c.number ∈ s.itemsOf i.pass)
    (hq : k.fan.running? number = some q) (hqs : i.Posing inv s k.fan qs)
    (hknown : inv k.fan.waiting.length x s.now (qs.filter fun r => r.call ≠ ⟨i.pass, number⟩)) :
    let s' := { s with source := x }.settleCall ⟨i.pass, number⟩
      (.answered i.pass number (i.answer q.candidate.position))
    ∃ k', i.Looking inv s' k' ∧ Comes load s k s' k' ∧ s'.room i.pass k' ≤ s.room i.pass k := by
  obtain ⟨fan, hfan, hasking⟩ := h.settle hq hqs
    (Schedule.step?_answered_of_running h.stage hq h.live _) hknown
  obtain ⟨-, -, hwaiting, hrunning⟩ := Fanout.answer?_eq_some hfan
  have hlimit := Fanout.limit_answer? hfan
  have hle : min (k.fan.limit - k.fan.running.length) k.fan.waiting.length ≤
      min (fan.limit - fan.running.length) fan.waiting.length := by
    rw [hlimit, hwaiting]
    omega
  obtain ⟨hfilled', hroom, hmem⟩ :=
    Schedule.fill_spec hasking.stage hfilled.inside (hfilled.next.le.trans hle)
  have halike := Schedule.alike_fill ({ s with
    world := s.world.step (.answered i.pass number (i.answer q.candidate.position))
    source := x }.forgetDeadline ⟨i.pass, number⟩) i.pass
  have hdeadlines : ({ s with source := x }.settleCall ⟨i.pass, number⟩
      (.answered i.pass number (i.answer q.candidate.position))).deadlines =
        s.deadlines.filter fun d => d.1 ≠ ⟨i.pass, number⟩ := halike.deadlines
  refine ⟨{ k with fan }, ⟨hasking.alike halike, hfilled', fun c time hd ht => ?_⟩,
    ⟨halike.now, .inl (Fanout.load_answer? hfan)⟩, ?_⟩
  · rw [hdeadlines] at hd
    obtain ⟨hd, hne⟩ := List.mem_filter.1 hd
    exact hmem _ (hprompt c time (by simpa using hne) hd (halike.now ▸ ht))
  · refine hroom.le.trans ?_
    show _ + (fan.waiting.length - _) ≤ _
    rw [hwaiting]
    exact Nat.le_refl _

/-- Looking at a question brings the pass closer to its end, or changes nothing of that. -/
theorem Asking.lookAt (h : i.Asking inv s k)
    (hsrc : src.Reliable i.document i.timeout patient i.answer inv load)
    (hfilled : s.Filled i.pass k) (hpass : c.pass = i.pass)
    (hprompt : ∀ c' time, c' ≠ c → (c', time) ∈ s.deadlines → time ≤ s.now →
      .open' c'.number ∈ s.itemsOf i.pass) :
    ∃ k', i.Looking inv (s.lookAt src c).1 k' ∧ Comes load s k (s.lookAt src c).1 k' ∧
      (s.lookAt src c).1.room i.pass k' ≤ s.room i.pass k := by
  have hlooks := Schedule.looksAt src s c
  generalize s.lookAt src c = result at hlooks ⊢
  obtain ⟨pass, number⟩ := c
  obtain rfl := hpass
  obtain ⟨qs, hqs⟩ := h.posing
  have hwork : ∀ {k' : Work}, s.world.passes[i.pass]? = some (.asking k') → k' = k :=
    fun hk' => Stage.asking.inj (Option.some.inj (hk'.symm.trans h.stage))
  cases hlooks with
  | absent hnone =>
    refine ⟨k, ⟨h, hfilled, fun c time hd ht => ?_⟩, .refl, Nat.le_refl _⟩
    by_cases hc : c = ⟨i.pass, number⟩
    · -- a question that is not open has no deadline
      obtain ⟨r, hr, hcall, -⟩ := hqs.exists_of_deadline hd
      obtain ⟨q, hq, hcall', -⟩ := hqs.exists_running hr
      have hnumber : q.number = number := (Call.mk.inj (hcall'.symm.trans (hcall.trans hc))).2
      have := List.find?_eq_none.1 (hnone k h.stage) q hq
      simp [hnumber] at this
    · exact hprompt c time hc hd ht
  | dropped hp _ hc =>
    obtain rfl := hwork hp
    cases h.live.symm.trans hc
  | @answered k' q x a hp hq hc hl =>
    obtain rfl := hwork hp
    obtain ⟨rfl, hknown⟩ := hqs.found hsrc rfl hq hl
    exact h.settleCall hfilled hprompt hq hqs hknown
  | @expired k' q x time hp hq hc hl hd ht =>
    obtain rfl := hwork hp
    obtain ⟨hnone, hknown⟩ := h.late hsrc hqs hq hl hd ht
    rw [← hnone]
    exact h.settleCall hfilled hprompt hq hqs hknown
  | @pending k' q x hp hq hc hl hnot =>
    obtain rfl := hwork hp
    obtain ⟨r, hr, hcall, -⟩ := hqs.exists_of_running_call rfl hq
    obtain ⟨hknown, hload⟩ := hsrc.pending hqs.known hr (hcall ▸ hl)
    refine ⟨k', ⟨h.kept hqs rfl rfl hknown, ⟨hfilled.inside, hfilled.next⟩, fun c time hd ht => ?_⟩,
      ⟨rfl, .inr ⟨rfl, rfl, hload⟩⟩, Nat.le_refl _⟩
    by_cases hc : c = ⟨i.pass, number⟩
    · exact absurd ht (Nat.not_le_of_lt (hnot time (hc ▸ hd)))
    · exact hprompt c time hc hd ht

theorem setItems_filled {s : Schedule σ} (h : s.Filled i.pass k) (its : List Item)
    (hn : its.count .next = (s.itemsOf i.pass).count .next) :
    (s.setItems i.pass its).Filled i.pass k where
  inside := (Schedule.length_setItems s _ _).symm ▸ h.inside
  next := by rw [Schedule.itemsOf_setItems h.inside, hn, h.next]

/-- The next question is put and looked at. -/
theorem Looking.askNext (h : i.Looking inv s k)
    (hsrc : src.Reliable i.document i.timeout patient i.answer inv load)
    (hits : s.itemsOf i.pass = .next :: its) :
    let s' := (s.setItems i.pass its).askNext src i.pass k
    ∃ k', i.Looking inv s' k' ∧ Comes load s k s' k' ∧ s'.room i.pass k' < s.room i.pass k := by
  have hin := h.filled.inside
  have hnext := h.filled.next
  rw [hits, List.count_cons_self] at hnext
  have hasks := (s.setItems i.pass its).asksNext src i.pass k
  generalize (s.setItems i.pass its).askNext src i.pass k = s' at hasks
  cases hasks with
  | skipped hc => cases h.live.symm.trans hc
  | full _ hnone =>
    obtain ⟨q, fan, hf⟩ := Fanout.exists_ask? (f := k.fan) (by omega) (by omega)
    cases hnone.symm.trans hf
  | @asked q fan most hc hf =>
    obtain ⟨-, -, hrunning, -, hlimit⟩ := Fanout.ask?_eq_some hf
    obtain ⟨hwaiting, -⟩ := Fanout.waiting_of_ask? hf
    have hs : s.world.step? (.asked i.pass) = some (s.world.step (.asked i.pass)) :=
      World.step?_eq_step (by rw [World.step?_asked h.stage h.live, hf]; rfl)
    have harranged : ((s.setItems i.pass its).afterAsking src i.pass k q).Alike
        { (s.setItems i.pass its).afterAsking src i.pass k q with most } := ⟨rfl, rfl, rfl, rfl⟩
    have hasking := ((h.toAsking.alike (s.alike_setItems i.pass its)).ask hsrc hf hs).alike harranged
    have hitems : Schedule.itemsOf { (s.setItems i.pass its).afterAsking src i.pass k q with most }
        i.pass = its := Schedule.itemsOf_setItems hin its
    have hlength : k.fan.waiting.length = fan.waiting.length + 1 := by rw [hwaiting]; rfl
    have hcomes : Comes load s k { (s.setItems i.pass its).afterAsking src i.pass k q with most }
        { k with fan } := ⟨rfl, .inl (Fanout.load_ask? hf)⟩
    have hfilled : Schedule.Filled { (s.setItems i.pass its).afterAsking src i.pass k q with most }
        i.pass { k with fan } := by
      refine ⟨(Schedule.length_setItems s _ _).symm ▸ hin, ?_⟩
      rw [hitems]
      show _ = min (fan.limit - fan.running.length) fan.waiting.length
      rw [hlimit, hrunning, List.length_append, List.length_singleton]
      omega
    obtain ⟨k', hlooking, hcomes', hroom⟩ := hasking.lookAt hsrc (c := ⟨i.pass, q.number⟩) hfilled
      rfl (by
        intro c' time hne hd ht
        rw [hitems]
        have hd : (c', time) ∈ s.deadlines ++ [(⟨i.pass, q.number⟩, s.now + k.timeout)] := hd
        obtain hd | hd := List.mem_append.1 hd
        · have hmem := h.prompt c' time hd ht
          rw [hits] at hmem
          exact (List.mem_cons.1 hmem).resolve_left Item.noConfusion
        · exact absurd (Prod.mk.inj (List.mem_singleton.1 hd)).1 hne)
    refine ⟨k', hlooking, hcomes.trans hcomes', hroom.trans_lt ?_⟩
    rw [Schedule.room, Schedule.room, hitems, hits, List.length_cons, List.count_cons_self]
    show its.length + (fan.waiting.length - _) < _
    omega

/-- Another open question is looked at. -/
theorem Looking.lookOpen (h : i.Looking inv s k)
    (hsrc : src.Reliable i.document i.timeout patient i.answer inv load) {number : Nat}
    (hits : s.itemsOf i.pass = .open' number :: its) :
    let s' := ((s.setItems i.pass its).lookAt src ⟨i.pass, number⟩).1
    ∃ k', i.Looking inv s' k' ∧ Comes load s k s' k' ∧ s'.room i.pass k' < s.room i.pass k := by
  have hin := h.filled.inside
  have hitems := Schedule.itemsOf_setItems hin its
  have hcount : its.count .next = (s.itemsOf i.pass).count .next := by
    rw [hits, List.count_cons_of_ne Item.noConfusion]
  have hcomes : Comes load s k (s.setItems i.pass its) k := ⟨rfl, .inr ⟨rfl, rfl, Nat.le_refl _⟩⟩
  obtain ⟨qs, hqs⟩ := h.posing
  obtain ⟨k', hlooking, hcomes', hroom⟩ := (h.toAsking.alike (s.alike_setItems i.pass its)).lookAt
    hsrc (c := ⟨i.pass, number⟩) (setItems_filled h.filled its hcount) rfl (by
      intro c' time hne hd ht
      rw [hitems]
      have hmem := h.prompt c' time hd ht
      rw [hits] at hmem
      refine (List.mem_cons.1 hmem).resolve_left fun heq => hne ?_
      obtain ⟨r, hr, rfl, -⟩ := hqs.exists_of_deadline hd
      obtain ⟨q, -, hcall, -⟩ := hqs.exists_running hr
      rw [hcall] at heq ⊢
      exact congrArg (Call.mk i.pass) (Item.open'.inj heq))
  refine ⟨k', hlooking, hcomes.trans hcomes', hroom.trans_lt ?_⟩
  rw [Schedule.room, Schedule.room, hitems, hcount, hits, List.length_cons]
  omega

/-- A pass has come as far as it can while the clock stands still: it has ended, or waits for answers. -/
inductive Halts (i : Errand) (inv : Nat → σ → Nat → List Posed → Prop) (load : σ → Nat → Nat)
    (s : Schedule σ) (k : Work) (s' : Schedule σ) : Prop
  | finished : Over (inv 0) s' → s'.hasEnded i.pass = true → s'.now = s.now → Halts i inv load s k s'
  | waits {k' : Work} : i.Looking inv s' k' → s'.itemsOf i.pass = [] → k'.fan.isDone = false →
    Comes load s k s' k' → Halts i inv load s k s'

theorem Halts.after (h : Halts i inv load s₁ k₁ s') (hc : Comes load s k s₁ k₁) :
    Halts i inv load s k s' := by
  cases h with
  | finished hover hended hnow => exact .finished hover hended (hnow.trans hc.now)
  | waits hlooking hits hdone hc' => exact .waits hlooking hits hdone (hc.trans hc')

/-- With enough fuel a pass looks at all it can look at. -/
theorem Looking.lookAround (h : i.Looking inv s k)
    (hsrc : src.Reliable i.document i.timeout patient i.answer inv load) {fuel : Nat}
    (hfuel : s.room i.pass k < fuel) :
    Halts i inv load s k (s.lookAround src i.pass fuel) := by
  induction fuel generalizing s k with
  | zero => cases hfuel
  | succ fuel ih =>
    unfold Schedule.lookAround
    rw [World.asking?_eq_some_iff.2 h.stage]
    dsimp only
    split
    · rename_i hits
      split
      · rename_i hdone
        have hs := World.step?_eq_step (by rw [World.step?_finished h.stage hdone]; rfl)
        obtain ⟨-, hover, o, ho⟩ := h.toAsking.finish (World.steps_of_step? hs)
        exact .finished hover (by rw [Schedule.hasEnded, ho]; rfl) rfl
      · rename_i hdone
        exact .waits h hits (Bool.eq_false_iff.2 hdone) .refl
    · rename_i its hits
      obtain ⟨k', hlooking, hcomes, hroom⟩ := h.askNext hsrc hits
      exact (ih hlooking (by omega)).after hcomes
    · rename_i number its hits
      obtain ⟨k', hlooking, hcomes, hroom⟩ := h.lookOpen hsrc hits
      exact (ih hlooking (by omega)).after hcomes

theorem room_lt_bound (h : s.world.passes[i.pass]? = some (.asking k)) :
    s.room i.pass k < s.bound i.pass := by
  rw [Schedule.bound, World.asking?_eq_some_iff.2 h, Schedule.room]
  show _ + (k.fan.waiting.length - _) < _ + (k.fan.waiting.length + 1)
  omega

/-! ### Settling -/

/-- Where all passes have ended, only the source settles. -/
theorem Over.rests {room : Nat} {s : Schedule σ} (h : Over (inv room) s)
    (hsrc : src.Reliable i.document i.timeout patient i.answer inv load) :
    ∃ s', s.SettlesTo src s' ∧ Over (inv room) s' ∧ s'.AtRest src ∧ s'.now = s.now ∧
      s'.world = s.world ∧ s'.items = s.items := by
  match hready : s.ready with
  | p :: ready =>
    have hgo : Schedule.goOn src { s with ready } p = { s with ready } :=
      Schedule.goOn_of_done (h.done p)
    have hover : Over (inv room) { s with ready } := ⟨h.done, h.deadlines, h.known⟩
    obtain ⟨s', hs', hrest⟩ := hover.rests hsrc
    exact ⟨s', .goOn hready (by rw [hgo]; exact hs'), hrest⟩
  | [] =>
    match hwork : src.work s.source s.now with
    | none => exact ⟨s, .rest ⟨hready, hwork⟩, h, ⟨hready, hwork⟩, rfl, rfl, rfl⟩
    | some (x, calls) =>
      obtain ⟨hknown, hload, hcalls⟩ := hsrc.work h.known hwork
      have hnil : calls = [] := by
        refine List.eq_nil_iff_forall_not_mem.2 fun c hc => ?_
        obtain ⟨q, hq, -⟩ := hcalls c hc
        cases hq
      subst hnil
      have hover : Over (inv room) { s with source := x } := ⟨h.done, h.deadlines, hknown⟩
      obtain ⟨s', hs', hrest⟩ := hover.rests hsrc
      exact ⟨s', .work hready hwork hs', hrest⟩
termination_by (load s.source s.now, s.ready.length)
decreasing_by
  · exact Prod.Lex.right _ (by rw [hready]; exact Nat.lt_succ_self _)
  · exact Prod.Lex.left _ _ hload

/-- A pass will go on, or has looked at all it can look at. -/
def Awake (i : Errand) (s : Schedule σ) (k : Work) : Prop :=
  i.pass ∈ s.ready ∨ s.itemsOf i.pass = [] ∧ k.fan.isDone = false

/-- A pass whose questions are woken is looked after if they are all those that are due. -/
theorem Asking.wake (calls : List Call) (h : i.Asking inv s k) (hfilled : s.Filled i.pass k)
    (hcalls : ∀ c ∈ calls, c.pass = i.pass)
    (hprompt : ∀ c time, (c, time) ∈ s.deadlines → time ≤ s.now →
      c ∈ calls ∨ .open' c.number ∈ s.itemsOf i.pass)
    (hawake : calls = [] → i.Awake s k) :
    i.Looking inv (calls.foldl Schedule.wake s) k ∧ i.Awake (calls.foldl Schedule.wake s) k := by
  induction calls generalizing s with
  | nil =>
    exact ⟨⟨h, hfilled, fun c time hd ht => (hprompt c time hd ht).resolve_left List.not_mem_nil⟩,
      hawake rfl⟩
  | cons c calls ih =>
    have hpass := hcalls c List.mem_cons_self
    obtain ⟨hself, hmem, hcount, hlength⟩ := Schedule.mem_itemsOf_wake (hpass ▸ hfilled.inside)
    rw [hpass] at hself hmem hcount
    have halike := s.alike_wake c
    refine ih (h.alike halike) ⟨hlength ▸ hfilled.inside, hcount.trans hfilled.next⟩
      (fun c' hc' => hcalls c' (List.mem_cons_of_mem c hc')) (fun c' time hd ht => ?_) fun _ => .inl ?_
    · rw [halike.deadlines] at hd
      obtain hc' | hc' := hprompt c' time hd (halike.now ▸ ht)
      · obtain rfl | hc' := List.mem_cons.1 hc'
        · exact .inr hself
        · exact .inl hc'
      · exact .inr (hmem _ hc')
    · exact hpass ▸ Schedule.mem_ready_wakePass _ _

/-- What halts has settled with the source. -/
theorem Halts.rests (h : Halts i inv load s k s₁)
    (hsrc : src.Reliable i.document i.timeout patient i.answer inv load)
    (hgoes : ∀ {k₁ : Work}, i.Looking inv s₁ k₁ → s₁.itemsOf i.pass = [] → k₁.fan.isDone = false →
      Comes load s k s₁ k₁ → ∃ s', s₁.SettlesTo src s' ∧ s'.AtRest src ∧ Halts i inv load s₁ k₁ s') :
    ∃ s', s₁.SettlesTo src s' ∧ s'.AtRest src ∧ Halts i inv load s k s' := by
  cases h with
  | finished hover hended hnow =>
    obtain ⟨s', hs', hover', hrest, hnow', hworld, -⟩ := hover.rests hsrc
    refine ⟨s', hs', hrest, .finished hover' ?_ (hnow'.trans hnow)⟩
    rw [Schedule.hasEnded, hworld]
    exact hended
  | waits hlooking hits hdone hcomes =>
    obtain ⟨s', hs', hrest, hhalts⟩ := hgoes hlooking hits hdone hcomes
    exact ⟨s', hs', hrest, hhalts.after hcomes⟩

/-- A pass that is looked after settles: in each turn it comes closer to its end, or the source has
less to do, or fewer passes can go on. -/
theorem Looking.rests {s : Schedule σ} {k : Work} (h : i.Looking inv s k) (hawake : i.Awake s k)
    (hsrc : src.Reliable i.document i.timeout patient i.answer inv load) :
    ∃ s', s.SettlesTo src s' ∧ s'.AtRest src ∧ Halts i inv load s k s' := by
  match hready : s.ready with
  | p :: ready =>
    have hlooking : i.Looking inv { s with ready } k :=
      ⟨h.toAsking.alike ⟨rfl, rfl, rfl, rfl⟩, ⟨h.filled.inside, h.filled.next⟩, h.prompt⟩
    have hcomes₀ : Comes load s k { s with ready } k := ⟨rfl, .inr ⟨rfl, rfl, Nat.le_refl _⟩⟩
    by_cases hp : p = i.pass
    · have hgo : Schedule.goOn src { s with ready } p =
          Schedule.lookAround src i.pass (Schedule.bound { s with ready } i.pass)
            { s with ready } := by
        rw [hp, Schedule.goOn, hlooking.stage]
      have hframed := Schedule.framed_goOn src { s with ready } p
      have hhalts := hlooking.lookAround hsrc (room_lt_bound hlooking.stage)
      rw [← hgo] at hhalts
      obtain ⟨s', hs', hrest, hhalts⟩ := hhalts.rests hsrc
        fun {k₁} hlooking₁ hits hdone hcomes => hlooking₁.rests (.inr ⟨hits, hdone⟩) hsrc
      exact ⟨s', .goOn hready hs', hrest, hhalts.after hcomes₀⟩
    · have hgo : Schedule.goOn src { s with ready } p = { s with ready } :=
        Schedule.goOn_of_done fun st => h.alone p st hp
      have hawake' : i.Awake { s with ready } k := hawake.imp_left fun hmem =>
        (List.mem_cons.1 (hready ▸ hmem)).resolve_left (Ne.symm hp)
      obtain ⟨s', hs', hrest, hhalts⟩ := hlooking.rests hawake' hsrc
      exact ⟨s', .goOn hready (by rw [hgo]; exact hs'), hrest, hhalts.after hcomes₀⟩
  | [] =>
    obtain ⟨hits, hdone⟩ := hawake.resolve_left (by rw [hready]; exact List.not_mem_nil)
    match hwork : src.work s.source s.now with
    | none => exact ⟨s, .rest ⟨hready, hwork⟩, ⟨hready, hwork⟩, .waits h hits hdone .refl⟩
    | some (x, calls) =>
      obtain ⟨qs, hqs⟩ := h.posing
      obtain ⟨hknown, hload, hcalls⟩ := hsrc.work hqs.known hwork
      have hpasses : ∀ c ∈ calls, c.pass = i.pass := by
        intro c hc
        obtain ⟨r, hr, rfl⟩ := hcalls c hc
        obtain ⟨q, -, hcall, -⟩ := hqs.exists_running hr
        rw [hcall]
      have hasking : i.Asking inv { s with source := x } k := h.kept hqs rfl rfl hknown
      obtain ⟨hlooking, hawake'⟩ := hasking.wake _ ⟨h.filled.inside, h.filled.next⟩ hpasses
        (fun c time hd ht => .inr (h.prompt c time hd ht)) fun _ => .inr ⟨hits, hdone⟩
      have halike := Schedule.alike_foldl Schedule.alike_wake calls { s with source := x }
      have hcomes : Comes load s k (calls.foldl Schedule.wake { s with source := x }) k := by
        refine ⟨halike.now, .inr ⟨rfl, halike.deadlines, ?_⟩⟩
        rw [halike.source]
        exact Nat.le_of_lt hload
      obtain ⟨s', hs', hrest, hhalts⟩ := hlooking.rests hawake' hsrc
      exact ⟨s', .work hready hwork hs', hrest, hhalts.after hcomes⟩
termination_by (k.fan.load, load s.source s.now, s.ready.length)
decreasing_by
  · refine Prod.lex_def.2 (hcomes.closer.imp_right fun ⟨hfan, _, hle⟩ => ⟨congrArg Fanout.load hfan, ?_⟩)
    rw [hcomes.now]
    refine Prod.lex_def.2 ((Nat.lt_or_eq_of_le hle).imp_right fun heq => ⟨heq, ?_⟩)
    rw [hframed.ready, hready]
    exact Nat.lt_succ_self _
  · exact .right _ (.right _ (by rw [hready]; exact Nat.lt_succ_self _))
  · refine .right _ (.left _ _ ?_)
    rw [halike.source, halike.now]
    exact hload

/-! ### Coming to an end -/

/-- A pass that waits for answers has deadlines, none of which has come. -/
theorem Looking.exists_deadline (h : i.Looking inv s k) (hits : s.itemsOf i.pass = [])
    (hdone : k.fan.isDone = false) :
    (∀ c time, (c, time) ∈ s.deadlines → s.now < time) ∧ ∃ c time, (c, time) ∈ s.deadlines := by
  refine ⟨fun c time hd => Nat.lt_of_not_le fun ht => ?_, ?_⟩
  · have := h.prompt c time hd ht
    rw [hits] at this
    cases this
  · have hrunning : k.fan.running ≠ [] := by
      intro hnil
      have hnext := h.filled.next
      have hroom := h.settles.room
      rw [hits, List.count_nil, hnil, List.length_nil] at hnext
      rw [Fanout.isDone, hnil, List.isEmpty_nil, Bool.and_true, List.isEmpty_eq_false_iff] at hdone
      have := List.length_pos_iff.2 hdone
      omega
    obtain ⟨q, hq⟩ := List.exists_mem_of_ne_nil _ hrunning
    obtain ⟨qs, hqs⟩ := h.posing
    obtain ⟨r, hr, -⟩ := hqs.exists_of_running hq
    exact ⟨r.call, r.since + i.timeout, hqs.deadlines ▸ List.mem_map_of_mem hr⟩

/-- The clock goes on to a time at which something is due; what is due then is woken. -/
theorem Looking.moveTo (h : i.Looking inv s k)
    (hsrc : src.Reliable i.document i.timeout patient i.answer inv load)
    (hits : s.itemsOf i.pass = []) (hdone : k.fan.isDone = false) {time : Nat}
    (ht : s.Waits src patient time) :
    i.Looking inv (s.moveTo time) k ∧ i.Awake (s.moveTo time) k := by
  rw [Schedule.moveTo, ← List.foldl_map (f := Prod.fst) (g := Schedule.wake)]
  obtain ⟨qs, hqs⟩ := h.posing
  refine (h.toAsking.waited hsrc ht).wake _ ⟨h.filled.inside, h.filled.next⟩ (fun c hc => ?_)
    (fun c t hd hle => .inl (List.mem_map.2 ⟨(c, t), ?_, rfl⟩)) fun _ => .inr ⟨hits, hdone⟩
  · obtain ⟨d, hd, rfl⟩ := List.mem_map.1 hc
    obtain ⟨r, hr, hcall, -⟩ :=
      hqs.exists_of_deadline (List.mem_filter.1 (List.mem_mergeSort.1 hd)).1
    obtain ⟨q, -, hcall', -⟩ := hqs.exists_running hr
    rw [← hcall, hcall']
  · exact List.mem_mergeSort.2 (List.mem_filter.2 ⟨hd, decide_eq_true hle⟩)

/-- A schedule comes to the end of a pass, and of all that goes on for it, by a run that goes through
a given state. -/
structure Ends (src : Source σ) (patient : Prop) (i : Errand) (inv : Nat → σ → Nat → List Posed → Prop)
    (s₀ s s' : Schedule σ) : Prop where
  stops : s.StopsAt src (Schedule.hasEnded i.pass) s'
  runs : ∃ es, Schedule.Runs src (Schedule.Waits src patient) s₀ es s'
  isOver : Over (inv 0) s'
  ended : s'.hasEnded i.pass = true
  rest : s'.AtRest src

/-- What halts when the schedule has settled comes to its end if it does so from any later time. -/
theorem Halts.ends (h : Halts i inv load s₁ k s₂) (hs : s.SettlesTo src s₂)
    (hruns : ∃ es, Schedule.Runs src (Schedule.Waits src patient) s₀ es s₂) (hrest : s₂.AtRest src)
    (hsrc : src.Reliable i.document i.timeout patient i.answer inv load)
    (hlater : ∀ {k₂ : Work} {time : Nat}, Comes load s₁ k s₂ k₂ → s₂.now < time →
      (∃ c t, (c, t) ∈ s₂.deadlines ∧ s₂.now < t) → i.Looking inv (s₂.moveTo time) k₂ →
      i.Awake (s₂.moveTo time) k₂ →
      ∃ s', Ends src patient i inv (s₂.moveTo time) (s₂.moveTo time) s') :
    ∃ s', Ends src patient i inv s₀ s s' := by
  obtain ⟨es, hruns⟩ := hruns
  cases h with
  | finished hover hended => exact ⟨s₂, .stop hs hended, ⟨es, hruns⟩, hover, hended, hrest⟩
  | waits hlooking hits hdone hcomes =>
    obtain ⟨hlate, c, time, hd⟩ := hlooking.exists_deadline hits hdone
    obtain ⟨t, ht, -⟩ := Schedule.exists_due_le src s₂
      (List.mem_append_right _ (List.mem_map_of_mem (f := Prod.snd) hd))
    have hnow : s₂.now < t := by
      obtain hsrc' | htime := List.mem_append.1 (List.min?_mem ht)
      · obtain ⟨qs, hqs⟩ := hlooking.posing
        exact hsrc.rest hqs.known hrest.work (Option.mem_toList.1 hsrc')
      · obtain ⟨d, hd', rfl⟩ := List.mem_map.1 htime
        exact hlate d.1 d.2 hd'
    have hended : s₂.hasEnded i.pass = false := by
      rw [Schedule.hasEnded, hlooking.stage]
      rfl
    have hwaits : s₂.Waits src patient (max t s₂.now) :=
      ⟨Schedule.punctual_due ht, fun _ => hrest.work⟩
    obtain ⟨hlooking', hawake'⟩ := hlooking.moveTo hsrc hits hdone hwaits
    obtain ⟨s', hend⟩ := hlater hcomes (Nat.lt_of_lt_of_le hnow (Nat.le_max_left t s₂.now))
      ⟨c, time, hd, hlate c time hd⟩ hlooking' hawake'
    obtain ⟨es', hruns'⟩ := hend.runs
    exact ⟨s', .turn hs hended ht hend.stops,
      ⟨_, (hruns.trans (Schedule.runs_moveTo hwaits)).trans hruns'⟩, hend.isOver, hend.ended, hend.rest⟩

/-- A pass that is looked after comes to its end: whenever the schedule has settled, the pass has
fewer questions left, or the clock is closer to a deadline. -/
theorem Looking.ends {s : Schedule σ} {k : Work} (h : i.Looking inv s k) (hawake : i.Awake s k)
    (hsrc : src.Reliable i.document i.timeout patient i.answer inv load) :
    ∃ s', Ends src patient i inv s s s' := by
  obtain ⟨s₁, hs₁, hrest, hhalts⟩ := h.rests hawake hsrc
  exact hhalts.ends hs₁ (hs₁.runs _) hrest hsrc fun {k₁ time} hcomes hnow hlate hlooking hawake' =>
    hlooking.ends hawake' hsrc
termination_by (k.fan.load, (s.deadlines.map Prod.snd).sum - s.now)
decreasing_by
  obtain ⟨c, t, hd, ht⟩ := hlate
  have halike := Schedule.alike_foldl (fun s (d : Call × Nat) => s.alike_wake d.1)
    ((s₁.deadlines.filter fun d => d.2 ≤ time).mergeSort fun a b => a.2 ≤ b.2) { s₁ with now := time }
  refine Prod.lex_def.2 (hcomes.closer.imp_right fun ⟨hfan, hdeadlines, _⟩ =>
    ⟨congrArg Fanout.load hfan, ?_⟩)
  have hsum := List.le_sum_of_mem (List.mem_map_of_mem (f := Prod.snd) hd)
  rw [Schedule.moveTo, halike.deadlines, halike.now, ← hdeadlines, ← hcomes.now]
  show (s₁.deadlines.map Prod.snd).sum - time < (s₁.deadlines.map Prod.snd).sum - s₁.now
  dsimp only at hsum
  omega

/-- A pass that has just begun is looked after once there are items for its questions. -/
theorem Asking.fill (h : i.Asking inv s k) (hin : i.pass < s.items.length)
    (hits : s.itemsOf i.pass = []) (hdeadlines : s.deadlines = []) :
    i.Looking inv (s.fill i.pass) k := by
  have halike := s.alike_fill i.pass
  obtain ⟨hfilled, -⟩ :=
    Schedule.fill_spec h.stage hin (by rw [hits, List.count_nil]; exact Nat.zero_le _)
  refine ⟨h.alike halike, hfilled, fun c time hd => ?_⟩
  rw [halike.deadlines, hdeadlines] at hd
  cases hd

/-- What a pass does that has just begun. -/
theorem Asking.rests (h : i.Asking inv s k) (hin : i.pass < s.items.length)
    (hits : s.itemsOf i.pass = []) (hdeadlines : s.deadlines = [])
    (hsrc : src.Reliable i.document i.timeout patient i.answer inv load) :
    ∃ s', ((s.fill i.pass).lookAround src i.pass ((s.fill i.pass).bound i.pass)).SettlesTo src s' ∧
      s'.AtRest src ∧ Halts i inv load (s.fill i.pass) k s' := by
  have hlooking := h.fill hin hits hdeadlines
  exact (hlooking.lookAround hsrc (room_lt_bound hlooking.stage)).rests hsrc
    fun hlooking₁ hits hdone _ => hlooking₁.rests (.inr ⟨hits, hdone⟩) hsrc

theorem Asking.ends (h : i.Asking inv s k) (hin : i.pass < s.items.length)
    (hits : s.itemsOf i.pass = []) (hdeadlines : s.deadlines = [])
    (hsrc : src.Reliable i.document i.timeout patient i.answer inv load)
    (hs : ∀ {s₂}, ((s.fill i.pass).lookAround src i.pass ((s.fill i.pass).bound i.pass)).SettlesTo src
      s₂ → s₁.SettlesTo src s₂) : ∃ s', Ends src patient i inv s s₁ s' := by
  obtain ⟨s₂, hs₂, hrest, hhalts⟩ := h.rests hin hits hdeadlines hsrc
  obtain ⟨es₁, hlook⟩ := Schedule.runs_lookAround src (Schedule.Waits src patient) i.pass
    ((s.fill i.pass).bound i.pass) (s.fill i.pass)
  obtain ⟨es₂, hruns⟩ := hs₂.runs (Schedule.Waits src patient)
  exact hhalts.ends (hs hs₂) ⟨_, ((s.alike_fill i.pass).runs.trans hlook).trans hruns⟩ hrest hsrc
    fun _ _ _ hlooking hawake => hlooking.ends hawake hsrc

/-- Whatever was looked at so far, a run can come to the end of the pass. -/
theorem Asking.exists_ended (h : i.Asking inv s k)
    (hsrc : src.Reliable i.document i.timeout patient i.answer inv load) : ∃ es s',
      Schedule.Runs src (Schedule.Waits src patient) s es s' ∧ Over (inv 0) s' ∧
        s'.hasEnded i.pass = true := by
  obtain ⟨qs, hqs⟩ := h.posing
  -- everything is woken: there are items for all that can be asked and for all that is open
  let s₀ : Schedule σ := { s with ready := [i.pass], items := List.replicate (i.pass + 1) [] }
  have halike₀ : s.Alike s₀ := ⟨rfl, rfl, rfl, rfl⟩
  have halike : s.Alike (s₀.fill i.pass) := halike₀.trans (s₀.alike_fill i.pass)
  have hits : s₀.itemsOf i.pass = [] := by
    show (List.replicate (i.pass + 1) []).getD i.pass [] = []
    rw [List.getD_eq_getElem?_getD, List.getElem?_replicate_of_lt (Nat.lt_succ_self _)]
    rfl
  obtain ⟨hfilled, -⟩ := Schedule.fill_spec (h.alike halike₀).stage
    (by rw [List.length_replicate]; exact Nat.lt_succ_self _)
    (by rw [hits, List.count_nil]; exact Nat.zero_le _)
  obtain ⟨hlooking, hawake⟩ := (h.alike halike).wake (s.deadlines.map Prod.fst) hfilled
    (fun c hc => by
      obtain ⟨d, hd, rfl⟩ := List.mem_map.1 hc
      obtain ⟨r, hr, hcall, -⟩ := hqs.exists_of_deadline hd
      obtain ⟨q, -, hcall', -⟩ := hqs.exists_running hr
      rw [← hcall, hcall'])
    (fun c time hd _ => .inl (List.mem_map_of_mem (f := Prod.fst) (halike.deadlines ▸ hd)))
    fun _ => .inl ((Schedule.framed_fill s₀ i.pass).ready ▸ List.mem_singleton_self _)
  obtain ⟨s', hend⟩ := hlooking.ends hawake hsrc
  obtain ⟨es, hruns⟩ := hend.runs
  have halike' := halike.trans (Schedule.alike_foldl Schedule.alike_wake (s.deadlines.map Prod.fst) _)
  exact ⟨_, s', halike'.runs.trans hruns, hend.isOver, hend.ended⟩

/-- What has begun, when there was only one pass to begin, comes to its end. -/
theorem ends_of_ready {r : Request} (hp : s.world.passes[i.pass]? = some (.ready r))
    (halone : Alone i.pass s.world) (hready : s.ready = [i.pass]) (hin : i.pass < s.items.length)
    (hits : s.itemsOf i.pass = []) (hdeadlines : s.deadlines = [])
    (hsrc : src.Reliable i.document i.timeout patient i.answer inv load)
    (hbegun : (inv 0 s.source s.now [] ∧
        ∃ o, (s.world.step (.begun i.pass)).passes[i.pass]? = some (.done r o)) ∨
      ∃ k, i.Asking inv { s with world := s.world.step (.begun i.pass) } k) :
    ∃ s', Ends src patient i inv { s with world := s.world.step (.begun i.pass) } s s' := by
  -- the schedule has nothing else to let go on
  let s₀ : Schedule σ := { s with ready := [], world := s.world.step (.begun i.pass) }
  have hgo : Schedule.goOn src { s with ready := [] } i.pass =
      Schedule.lookAround src i.pass ((s₀.fill i.pass).bound i.pass) (s₀.fill i.pass) := by
    rw [Schedule.goOn, hp]
  have halike : Schedule.Alike { s with world := s.world.step (.begun i.pass) } s₀ :=
    ⟨rfl, rfl, rfl, rfl⟩
  have hs : ∀ {s₂}, ((s₀.fill i.pass).lookAround src i.pass ((s₀.fill i.pass).bound i.pass)).SettlesTo
      src s₂ → s.SettlesTo src s₂ := fun hs₂ => .goOn hready (by rw [hgo]; exact hs₂)
  suffices h : ∃ s', Ends src patient i inv s₀ s s' by
    obtain ⟨s', hend⟩ := h
    obtain ⟨es, hruns⟩ := hend.runs
    exact ⟨s', hend.stops, ⟨_, halike.runs.trans hruns⟩, hend.isOver, hend.ended, hend.rest⟩
  obtain ⟨hknown, o, hdone⟩ | ⟨k, hasking⟩ := hbegun
  · have hnone : s₀.world.asking? i.pass = none := by
      rw [World.asking?, hdone]
    have hfill : s₀.fill i.pass = s₀ := by
      rw [Schedule.fill, hnone]
    have hstays : ∀ fuel, Schedule.lookAround src i.pass fuel s₀ = s₀ := by
      intro fuel
      cases fuel with
      | zero => rfl
      | succ fuel => rw [Schedule.lookAround, hnone]
    rw [hfill, hstays] at hs
    have hpasses : s₀.world.passes =
        s.world.passes.set i.pass (s.world.analyzer.beginPass r).2 := by
      show (s.world.step (.begun i.pass)).passes = _
      rw [World.step, World.step?_begun hp]
      rfl
    have hover : Over (inv 0) s₀ := by
      refine ⟨fun j st hst => ?_, hdeadlines, hknown⟩
      by_cases hj : j = i.pass
      · rw [hj] at hst
        obtain rfl := Option.some.inj (hdone.symm.trans hst)
        rfl
      · exact halone.set hp hpasses j st hj hst
    obtain ⟨s₁, hs₁, hover₁, hrest, -, hworld, -⟩ := hover.rests hsrc
    have hended : s₁.hasEnded i.pass = true := by
      rw [Schedule.hasEnded, hworld, hdone]
      rfl
    exact ⟨s₁, .stop (hs hs₁) hended, hs₁.runs _, hover₁, hended, hrest⟩
  · exact (hasking.alike halike).ends hin hits hdeadlines hsrc hs

end Errand

end AnySpans.Passes
