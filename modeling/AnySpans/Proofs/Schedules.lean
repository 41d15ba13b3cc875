import AnySpans.Passes.Schedule
import AnySpans.Proofs.Cancelled

/-!
# What a schedule does

A schedule fixes an order in which its passes go on and their questions are looked at.  Without that
order it makes `Moves`: a pass makes a step, a question is asked, looked at, answered or given up, the
source works, the clock moves on.  Whatever the functions of a schedule do is a run of such moves
(`Schedule.Runs`), so that what every move keeps holds in any order.
-/

namespace AnySpans.Passes

open AnySpans.Documents AnySpans.Text

/-- Whether an event puts or settles a question. -/
def Event.isCall : Event → Bool
  | .asked _ | .answered _ _ _ | .dropped _ _ => true
  | _ => false

namespace Schedule

variable {σ : Type} {src : Source σ} {may may' : Schedule σ → Nat → Prop} {s s' s₁ s₂ : Schedule σ}
  {e : Event} {es es' : List Event} {c : Call} {p : Nat} {k : Work}

/-! ### Moves -/

/-- The clock goes on, but not beyond what is due. -/
def Punctual (src : Source σ) (s : Schedule σ) (time : Nat) : Prop :=
  s.now ≤ time ∧ ∀ t, s.due src = some t → time ≤ max t s.now

/-- What can happen in a schedule next, in whatever order things are looked at; `may` tells how far
the clock can go on. -/
inductive Moves (src : Source σ) (may : Schedule σ → Nat → Prop) (s : Schedule σ) :
    Option Event → Schedule σ → Prop
  /-- What can be looked at is put into another order. -/
  | arranged (ready : List Nat) (items : List (List Item)) (most : Nat) :
    Moves src may s none { s with ready, items, most }
  | waited {time : Nat} : may s time → Moves src may s none { s with now := time }
  | worked {x : σ} {calls : List Call} : src.work s.source s.now = some (x, calls) →
    Moves src may s none { s with source := x }
  /-- A pass makes a step that the source does not see. -/
  | stepped {e : Event} {p : Nat} {w : World} : e.pass? = some p → e.isCall = false →
    s.world.step? e = some w → Moves src may s (some e) { s with world := w }
  | asked {p : Nat} {k : Work} {q : Query} {fan : Fanout} {w : World} :
    s.world.passes[p]? = some (.asking k) → s.world.isCancelled k = false →
    k.fan.ask? = some (q, fan) → s.world.step? (.asked p) = some w →
    Moves src may s (some (.asked p)) { s with
      world := w
      source := src.ask s.source s.now ⟨p, q.number⟩ k.request.document q.candidate.position
      deadlines := s.deadlines ++ [(⟨p, q.number⟩, s.now + k.timeout)] }
  /-- A question is looked at in vain. -/
  | looked {c : Call} {k : Work} {q : Query} {x : σ} :
    s.world.passes[c.pass]? = some (.asking k) → k.fan.running? c.number = some q →
    src.look s.source s.now c = (x, none) → Moves src may s none { s with source := x }
  | answered {c : Call} {k : Work} {q : Query} {a : Answer} {x : σ} {w : World} :
    s.world.passes[c.pass]? = some (.asking k) → k.fan.running? c.number = some q →
    src.look s.source s.now c = (x, some a) →
    s.world.step? (.answered c.pass c.number a) = some w →
    Moves src may s (some (.answered c.pass c.number a))
      ({ s with world := w, source := x }.forgetDeadline c)
  /-- A question is given up when its time has come. -/
  | expired {c : Call} {k : Work} {q : Query} {time : Nat} {x : σ} {w : World} :
    s.world.passes[c.pass]? = some (.asking k) → k.fan.running? c.number = some q →
    src.look s.source s.now c = (x, none) → (c, time) ∈ s.deadlines → time ≤ s.now →
    s.world.step? (.answered c.pass c.number none) = some w →
    Moves src may s (some (.answered c.pass c.number none))
      ({ s with world := w, source := src.forget x c }.forgetDeadline c)
  | dropped {c : Call} {k : Work} {w : World} :
    s.world.passes[c.pass]? = some (.asking k) → s.world.isCancelled k = true →
    s.world.step? (.dropped c.pass c.number) = some w →
    Moves src may s (some (.dropped c.pass c.number))
      ({ s with world := w, source := src.forget s.source c }.forgetDeadline c)

/-- A run of moves with the events of its world. -/
inductive Runs (src : Source σ) (may : Schedule σ → Nat → Prop) (s : Schedule σ) :
    List Event → Schedule σ → Prop
  | refl : Runs src may s [] s
  | move {es : List Event} {s₁ s₂ : Schedule σ} {e : Option Event} : Runs src may s es s₁ →
    Moves src may s₁ e s₂ → Runs src may s (es ++ e.toList) s₂

theorem Moves.mono {e : Option Event} (h : Moves src may s e s')
    (hmay : ∀ s time, may s time → may' s time) : Moves src may' s e s' := by
  cases h with
  | arranged => exact .arranged _ _ _
  | waited ht => exact .waited (hmay _ _ ht)
  | worked h => exact .worked h
  | stepped hp hc hs => exact .stepped hp hc hs
  | asked hp hc hf hs => exact .asked hp hc hf hs
  | looked hp hq hl => exact .looked hp hq hl
  | answered hp hq hl hs => exact .answered hp hq hl hs
  | expired hp hq hl hd ht hs => exact .expired hp hq hl hd ht hs
  | dropped hp hc hs => exact .dropped hp hc hs

namespace Runs

theorem one {e : Option Event} (h : Moves src may s e s') : Runs src may s e.toList s' :=
  Runs.refl.move h

theorem trans (h : Runs src may s es s₁) (h' : Runs src may s₁ es' s₂) :
    Runs src may s (es ++ es') s₂ := by
  induction h' with
  | refl => rwa [List.append_nil]
  | move _ hm ih => exact List.append_assoc _ _ _ ▸ ih.move hm

theorem mono (h : Runs src may s es s') (hmay : ∀ s time, may s time → may' s time) :
    Runs src may' s es s' := by
  induction h with
  | refl => exact .refl
  | move _ hm ih => exact ih.move (hm.mono hmay)

end Runs

/-- What a move does to the world is the step of its event. -/
theorem Moves.world {e : Option Event} (h : Moves src may s e s') :
    (e = none ∧ s'.world = s.world) ∨
      ∃ e' p, e = some e' ∧ e'.pass? = some p ∧ s.world.step? e' = some s'.world := by
  cases h with
  | stepped hp _ hs => exact .inr ⟨_, _, rfl, hp, hs⟩
  | asked _ _ _ hs => exact .inr ⟨_, _, rfl, rfl, hs⟩
  | answered _ _ _ hs => exact .inr ⟨_, _, rfl, rfl, hs⟩
  | expired _ _ _ _ _ hs => exact .inr ⟨_, _, rfl, rfl, hs⟩
  | dropped _ _ hs => exact .inr ⟨_, _, rfl, rfl, hs⟩
  | _ => exact .inl ⟨rfl, rfl⟩

/-- The world of a run goes through the events of the run. -/
theorem Runs.history (h : Runs src may s es s') :
    ∃ ms, History s.world ms s'.world ∧ ms.map Moment.event = es := by
  induction h with
  | refl => exact ⟨[], .start, rfl⟩
  | move _ hm ih =>
    obtain ⟨ms, hms, rfl⟩ := ih
    obtain ⟨rfl, hw⟩ | ⟨e, p, rfl, -, hs⟩ := hm.world
    · exact ⟨ms, hw ▸ hms, (List.append_nil _).symm⟩
    · exact ⟨_, hms.step hs, by rw [List.map_append]; rfl⟩

/-! ### What is looked at -/

/-- Two schedules differ at most in what is looked at next. -/
structure Alike (s s' : Schedule σ) : Prop where
  now : s'.now = s.now
  world : s'.world = s.world
  source : s'.source = s.source
  deadlines : s'.deadlines = s.deadlines

namespace Alike

theorem refl (s : Schedule σ) : s.Alike s := ⟨rfl, rfl, rfl, rfl⟩

theorem trans (h : s.Alike s₁) (h' : s₁.Alike s₂) : s.Alike s₂ :=
  ⟨h'.now.trans h.now, h'.world.trans h.world, h'.source.trans h.source,
    h'.deadlines.trans h.deadlines⟩

theorem runs (h : s.Alike s') : Runs src may s [] s' := by
  obtain ⟨now, world, source, ready, items, deadlines, most⟩ := s'
  obtain ⟨rfl, rfl, rfl, rfl⟩ := h
  exact .one (.arranged ready items most)

end Alike

theorem alike_setItems (s : Schedule σ) (p : Nat) (items : List Item) :
    s.Alike (s.setItems p items) := ⟨rfl, rfl, rfl, rfl⟩

theorem alike_wakePass (s : Schedule σ) (p : Nat) : s.Alike (s.wakePass p) := by
  unfold wakePass
  split
  · exact .refl s
  · exact ⟨rfl, rfl, rfl, rfl⟩

theorem alike_wake (s : Schedule σ) (c : Call) : s.Alike (s.wake c) := by
  unfold wake
  refine Alike.trans ?_ (alike_wakePass _ _)
  split
  · exact .refl s
  · exact s.alike_setItems _ _

theorem alike_fill (s : Schedule σ) (p : Nat) : s.Alike (s.fill p) := by
  unfold fill
  split
  · exact .refl s
  · exact s.alike_setItems _ _

theorem alike_foldl {α : Type} {f : Schedule σ → α → Schedule σ}
    (hf : ∀ (s : Schedule σ) a, s.Alike (f s a))
    (l : List α) (s : Schedule σ) : s.Alike (l.foldl f s) := by
  induction l generalizing s with
  | nil => exact .refl s
  | cons a l ih => exact (hf s a).trans (ih _)

/-! ### Looking at a question -/

/-- What can come of looking at a question. -/
inductive LooksAt (src : Source σ) (s : Schedule σ) (c : Call) : Schedule σ × Bool → Prop
  /-- It is not open. -/
  | absent : (∀ k, s.world.passes[c.pass]? = some (.asking k) → k.fan.running? c.number = none) →
    LooksAt src s c (s, false)
  | dropped {k : Work} {q : Query} : s.world.passes[c.pass]? = some (.asking k) →
    k.fan.running? c.number = some q → s.world.isCancelled k = true →
    LooksAt src s c
      ({ s with source := src.forget s.source c }.settleCall c (.dropped c.pass c.number), true)
  | answered {k : Work} {q : Query} {x : σ} {a : Answer} :
    s.world.passes[c.pass]? = some (.asking k) → k.fan.running? c.number = some q →
    s.world.isCancelled k = false → src.look s.source s.now c = (x, some a) →
    LooksAt src s c ({ s with source := x }.settleCall c (.answered c.pass c.number a), true)
  | expired {k : Work} {q : Query} {x : σ} {time : Nat} :
    s.world.passes[c.pass]? = some (.asking k) → k.fan.running? c.number = some q →
    s.world.isCancelled k = false → src.look s.source s.now c = (x, none) →
    (c, time) ∈ s.deadlines → time ≤ s.now →
    LooksAt src s c
      ({ s with source := src.forget x c }.settleCall c (.answered c.pass c.number none), true)
  | pending {k : Work} {q : Query} {x : σ} : s.world.passes[c.pass]? = some (.asking k) →
    k.fan.running? c.number = some q → s.world.isCancelled k = false →
    src.look s.source s.now c = (x, none) → (∀ time, (c, time) ∈ s.deadlines → s.now < time) →
    LooksAt src s c ({ s with source := x }, false)

theorem looksAt (src : Source σ) (s : Schedule σ) (c : Call) : LooksAt src s c (s.lookAt src c) := by
  unfold lookAt
  split
  · rename_i hk
    refine .absent fun k hk' => ?_
    rw [World.asking?_eq_some_iff.2 hk'] at hk
    cases hk
  · rename_i k hk
    have hp := World.asking?_eq_some_iff.1 hk
    split
    · rename_i hq
      refine .absent fun k' hk' => ?_
      obtain rfl := Stage.asking.inj (Option.some.inj (hp.symm.trans hk'))
      exact Option.isNone_iff_eq_none.1 hq
    · rename_i hq
      obtain ⟨q, hq⟩ := Option.ne_none_iff_exists'.1 fun h => hq (Option.isNone_iff_eq_none.2 h)
      split
      · exact .dropped hp hq ‹_›
      · rename_i hc
        rw [Bool.not_eq_true] at hc
        rcases hl : src.look s.source s.now c with ⟨x, _ | a⟩
        · dsimp only
          split
          · rename_i hany
            obtain ⟨⟨c', time⟩, hd, hlate⟩ := List.any_eq_true.1 hany
            simp only [Bool.and_eq_true, beq_iff_eq, decide_eq_true_eq] at hlate
            obtain ⟨rfl, hlate⟩ := hlate
            exact .expired hp hq hc hl hd hlate
          · rename_i hnone
            refine .pending hp hq hc hl fun time hd => Nat.lt_of_not_le fun hlate => hnone ?_
            exact List.any_eq_true.2 ⟨_, hd, by simpa using hlate⟩
        · exact .answered hp hq hc hl

/-- An open question of a pass that is not cancelled can be answered. -/
theorem step?_answered_of_running {w : World} {q : Query} {number : Nat}
    (hp : w.passes[p]? = some (.asking k)) (hq : k.fan.running? number = some q)
    (hc : w.isCancelled k = false) (a : Answer) :
    w.step? (.answered p number a) = some (w.step (.answered p number a)) := by
  refine World.step?_eq_step ?_
  rw [World.step?_answered hp hc, Fanout.answer?, hq]
  rfl

theorem step?_dropped_of_running {w : World} {q : Query} {number : Nat}
    (hp : w.passes[p]? = some (.asking k)) (hq : k.fan.running? number = some q)
    (hc : w.isCancelled k = true) :
    w.step? (.dropped p number) = some (w.step (.dropped p number)) := by
  refine World.step?_eq_step ?_
  rw [World.step?_dropped hp hc, Fanout.answer?, hq]
  rfl

theorem runs_settleCall {x : σ} (h : Moves src may s (some e)
      ({ s with world := s.world.step e, source := x }.forgetDeadline c)) :
    Runs src may s [e] ({ s with source := x }.settleCall c e) :=
  (Runs.one h).trans (alike_fill _ c.pass).runs

theorem LooksAt.runs {r : Schedule σ × Bool} (h : LooksAt src s c r) :
    ∃ es, Runs src may s es r.1 := by
  cases h with
  | absent => exact ⟨[], .refl⟩
  | dropped hp hq hc =>
    exact ⟨_, runs_settleCall (.dropped hp hc (step?_dropped_of_running hp hq hc))⟩
  | answered hp hq hc hl =>
    exact ⟨_, runs_settleCall (.answered hp hq hl (step?_answered_of_running hp hq hc _))⟩
  | expired hp hq hc hl hd ht =>
    exact ⟨_, runs_settleCall (.expired hp hq hl hd ht (step?_answered_of_running hp hq hc none))⟩
  | pending hp hq hc hl => exact ⟨[], .one (.looked hp hq hl)⟩

theorem runs_lookAt (src : Source σ) (may : Schedule σ → Nat → Prop) (s : Schedule σ) (c : Call) :
    ∃ es, Runs src may s es (s.lookAt src c).1 := (looksAt src s c).runs

/-! ### Going on -/

/-- The schedule after a question was asked, before it is looked at. -/
def afterAsking (src : Source σ) (s : Schedule σ) (p : Nat) (k : Work) (q : Query) : Schedule σ :=
  { s with
    world := s.world.step (.asked p)
    source := src.ask s.source s.now ⟨p, q.number⟩ k.request.document q.candidate.position
    deadlines := s.deadlines ++ [(⟨p, q.number⟩, s.now + k.timeout)] }

/-- What can come of asking the next question of a pass. -/
inductive AsksNext (src : Source σ) (s : Schedule σ) (p : Nat) (k : Work) : Schedule σ → Prop
  | skipped : s.world.isCancelled k = true →
    AsksNext src s p k ({ s with world := s.world.step (.skipped p) }.fill p)
  | full : s.world.isCancelled k = false → k.fan.ask? = none → AsksNext src s p k s
  | asked {q : Query} {fan : Fanout} (most : Nat) : s.world.isCancelled k = false →
    k.fan.ask? = some (q, fan) → AsksNext src s p k
      (({ s.afterAsking src p k q with most }.lookAt src ⟨p, q.number⟩).1)

theorem asksNext (src : Source σ) (s : Schedule σ) (p : Nat) (k : Work) :
    AsksNext src s p k (s.askNext src p k) := by
  unfold askNext
  split
  · exact .skipped ‹_›
  · rename_i hc
    rw [Bool.not_eq_true] at hc
    split
    · exact .full hc ‹_›
    · exact .asked _ hc ‹_›

theorem runs_stepped (src : Source σ) (may : Schedule σ → Nat → Prop) (s : Schedule σ)
    (hp : e.pass? = some p) (hc : e.isCall = false) :
    ∃ es, Runs src may s es { s with world := s.world.step e } := by
  cases hs : s.world.step? e with
  | none =>
    rw [World.step, hs]
    exact ⟨[], .refl⟩
  | some w =>
    rw [World.step, hs]
    exact ⟨_, .one (.stepped hp hc hs)⟩

theorem AsksNext.runs (may : Schedule σ → Nat → Prop) (h : AsksNext src s p k s')
    (hp : s.world.passes[p]? = some (.asking k)) :
    ∃ es, Runs src may s es s' := by
  cases h with
  | skipped hc =>
    obtain ⟨es, h⟩ := runs_stepped src may s (e := .skipped p) rfl rfl
    exact ⟨_, h.trans (alike_fill _ p).runs⟩
  | full => exact ⟨[], .refl⟩
  | @asked q fan most hc hf =>
    have hs : s.world.step? (.asked p) = some (s.world.step (.asked p)) :=
      World.step?_eq_step (by rw [World.step?_asked hp hc, hf]; rfl)
    have hasked : Runs src may s [.asked p] (s.afterAsking src p k q) :=
      .one (.asked hp hc hf hs)
    have harranged : (s.afterAsking src p k q).Alike { s.afterAsking src p k q with most } :=
      ⟨rfl, rfl, rfl, rfl⟩
    obtain ⟨es, hlook⟩ := runs_lookAt src may { s.afterAsking src p k q with most } ⟨p, q.number⟩
    exact ⟨_, (hasked.trans harranged.runs).trans hlook⟩

theorem runs_lookAround (src : Source σ) (may : Schedule σ → Nat → Prop) (p fuel : Nat)
    (s : Schedule σ) : ∃ es, Runs src may s es (lookAround src p fuel s) := by
  induction fuel generalizing s with
  | zero => exact ⟨[], .refl⟩
  | succ fuel ih =>
    unfold lookAround
    split
    · exact ⟨[], .refl⟩
    · rename_i k hk
      have hp := World.asking?_eq_some_iff.1 hk
      split
      · split
        · exact runs_stepped src may s rfl rfl
        · exact ⟨[], .refl⟩
      · rename_i items _
        obtain ⟨es, hask⟩ := ((s.setItems p items).asksNext src p k).runs may hp
        obtain ⟨es', hrest⟩ := ih ((s.setItems p items).askNext src p k)
        exact ⟨_, ((s.alike_setItems p items).runs.trans hask).trans hrest⟩
      · rename_i number items _
        obtain ⟨es, hlook⟩ := runs_lookAt src may (s.setItems p items) ⟨p, number⟩
        obtain ⟨es', hrest⟩ := ih ((s.setItems p items).lookAt src ⟨p, number⟩).1
        exact ⟨_, ((s.alike_setItems p items).runs.trans hlook).trans hrest⟩

theorem runs_goOn (src : Source σ) (may : Schedule σ → Nat → Prop) (s : Schedule σ) (p : Nat) :
    ∃ es, Runs src may s es (s.goOn src p) := by
  unfold goOn
  split
  · obtain ⟨es, hbegun⟩ := runs_stepped src may s (e := .begun p) rfl rfl
    obtain ⟨es', hrest⟩ := runs_lookAround src may p _ _
    exact ⟨_, (hbegun.trans (alike_fill _ p).runs).trans hrest⟩
  · exact runs_lookAround src may p _ s
  · exact ⟨[], .refl⟩

theorem runs_settle (src : Source σ) (may : Schedule σ → Nat → Prop) (fuel : Nat)
    (s : Schedule σ) : ∃ es, Runs src may s es (settle src fuel s) := by
  induction fuel generalizing s with
  | zero => exact ⟨[], .refl⟩
  | succ fuel ih =>
    unfold settle
    split
    · rename_i p ready _
      have harranged : s.Alike { s with ready } := ⟨rfl, rfl, rfl, rfl⟩
      obtain ⟨es, hgo⟩ := runs_goOn src may { s with ready } p
      obtain ⟨es', hrest⟩ := ih ({ s with ready }.goOn src p)
      exact ⟨_, (harranged.runs.trans hgo).trans hrest⟩
    · split
      · rename_i x calls hwork
        have hworked : Runs src may s [] { s with source := x } := .one (.worked hwork)
        obtain ⟨es, hrest⟩ := ih (calls.foldl wake { s with source := x })
        exact ⟨_, (hworked.trans (alike_foldl alike_wake calls _).runs).trans hrest⟩
      · exact ⟨[], .refl⟩

theorem runs_moveTo {time : Nat} (h : may s time) : Runs src may s [] (s.moveTo time) :=
  (Runs.one (.waited h)).trans (alike_foldl (fun s (d : Call × Nat) => s.alike_wake d.1) _ _).runs

theorem punctual_due {time : Nat} (h : s.due src = some time) :
    s.Punctual src (max time s.now) :=
  ⟨Nat.le_max_right _ _, fun t ht => by rw [Option.some.inj (h.symm.trans ht)]⟩

/-- Whatever the amount of fuel, what a schedule does is a run. -/
theorem runs_runUntil (src : Source σ) (fuel : Nat) (stop : Schedule σ → Bool) (turns : Nat)
    (s : Schedule σ) : ∃ es, Runs src (Punctual src) s es (runUntil src fuel stop turns s) := by
  induction turns generalizing s with
  | zero => exact ⟨[], .refl⟩
  | succ turns ih =>
    obtain ⟨es, hsettle⟩ := runs_settle src (Punctual src) fuel s
    unfold runUntil
    dsimp only
    split
    · exact ⟨es, hsettle⟩
    · split
      · rename_i time hdue
        obtain ⟨es', hrest⟩ := ih ((settle src fuel s).moveTo (max time (settle src fuel s).now))
        exact ⟨_, (hsettle.trans (runs_moveTo (punctual_due hdue))).trans hrest⟩
      · exact ⟨es, hsettle⟩

end Schedule

end AnySpans.Passes
