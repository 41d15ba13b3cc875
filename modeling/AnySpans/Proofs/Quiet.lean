import AnySpans.Proofs.Progress

/-!
# Quiet schedules

Between two passes a schedule is quiet (`Errand.Quiet`): all passes have ended, and none is woken.
What happens to documents then changes the world and nothing else (`Errand.Quiet.happen`); a pass that
is called for is the only one that goes on (`Errand.Quiet.spawned`); and where something is bound to
come of the source in time, the schedule stops for it (`Errand.Over.stops`).
-/

namespace AnySpans.Passes

open AnySpans.Documents AnySpans.Syntax AnySpans.Text

/-- A source that can be asked more questions can be asked fewer. -/
theorem Source.Reliable.keepRoom {σ : Type} {src : Source σ} {d : Snapshot} {timeout : Nat}
    {patient : Prop} {answer : Position → Answer} {inv : Nat → σ → Nat → List Posed → Prop}
    {load : σ → Nat → Nat} (h : src.Reliable d timeout patient answer inv load) (n : Nat) :
    src.Reliable d timeout patient answer (fun room => inv (room + n)) load where
  ask at' hinv hfresh := h.ask at' (by rwa [Nat.add_right_comm] at hinv) hfresh
  found := h.found
  pending := h.pending
  late := h.late
  work := h.work
  rest := h.rest
  wait := h.wait

namespace Schedule

variable {σ : Type} {s : Schedule σ}

/-! ### The lists of items -/

theorem length_items_wake (s : Schedule σ) (c : Call) : (s.wake c).items.length = s.items.length := by
  have hpass : ∀ s : Schedule σ, (s.wakePass c.pass).items = s.items := by
    intro s
    unfold wakePass
    split <;> rfl
  rw [wake, hpass]
  split
  · rfl
  · exact s.length_setItems _ _

theorem length_items_foldl_wake {α : Type} (f : α → Call) (l : List α) (s : Schedule σ) :
    (l.foldl (fun s a => s.wake (f a)) s).items.length = s.items.length := by
  induction l generalizing s with
  | nil => rfl
  | cons a l ih => exact (ih _).trans (s.length_items_wake _)

theorem length_items_settle (src : Source σ) (fuel : Nat) (s : Schedule σ) :
    (settle src fuel s).items.length = s.items.length := by
  induction fuel generalizing s with
  | zero => rfl
  | succ fuel ih =>
    unfold settle
    split
    · exact (ih _).trans (framed_goOn src _ _).items
    · split
      · exact (ih _).trans (length_items_foldl_wake id _ _)
      · rfl

/-- There are no more and no fewer lists of items after a run. -/
theorem length_items_runUntil (src : Source σ) (fuel : Nat) (stop : Schedule σ → Bool) (turns : Nat)
    (s : Schedule σ) : (runUntil src fuel stop turns s).items.length = s.items.length := by
  induction turns generalizing s with
  | zero => rfl
  | succ turns ih =>
    have hsettle := length_items_settle src fuel s
    unfold runUntil
    dsimp only
    split
    · exact hsettle
    · split
      · exact ((ih _).trans (length_items_foldl_wake _ _ _)).trans hsettle
      · exact hsettle

theorem StopsAt.length_items {src : Source σ} {stop : Schedule σ → Bool} {s' : Schedule σ}
    (h : s.StopsAt src stop s') : s'.items.length = s.items.length := by
  obtain ⟨n, hn⟩ := h
  rw [← hn n n (Nat.le_refl n) (Nat.le_refl n)]
  exact length_items_runUntil src n stop n s

/-! ### Events while no pass goes on -/

theorem cancelledCalls_eq_nil (h : ∀ k, .asking k ∉ s.world.passes) : s.cancelledCalls = [] := by
  refine List.flatMap_eq_nil_iff.2 ?_
  rintro ⟨st, p⟩ hst
  cases st with
  | asking k => exact absurd (List.fst_mem_of_mem_zipIdx hst) (h k)
  | _ => rfl

end Schedule

namespace Errand

variable {σ : Type} {inv : Nat → σ → Nat → List Posed → Prop} {load : σ → Nat → Nat} {src : Source σ}
  {patient : Prop} {known : σ → Nat → List Posed → Prop} {s s' : Schedule σ} {e : Event}

/-- All passes have ended, and none of them is woken. -/
structure Quiet (known : σ → Nat → List Posed → Prop) (s : Schedule σ) : Prop
    extends Over known s where
  ready : s.ready = []
  items : s.items.length = s.world.passes.length

namespace Quiet

theorem not_asking (h : Quiet known s) (k : Work) : .asking k ∉ s.world.passes := by
  intro hk
  obtain ⟨j, hj⟩ := List.getElem?_of_mem hk
  cases h.done j _ hj

/-- What happens to documents changes the world and nothing else. -/
theorem happen (h : Quiet known s) (he : (s.world.step e).passes = s.world.passes) :
    s.happen e = { s with world := s.world.step e } := by
  have hnew : (List.range (s.world.step e).passes.length).drop s.world.passes.length = [] := by
    rw [he]
    exact List.drop_eq_nil_of_le (Nat.le_of_eq List.length_range)
  have hnone : Schedule.cancelledCalls { s with world := s.world.step e } = [] :=
    Schedule.cancelledCalls_eq_nil fun k hk => h.not_asking k (he ▸ hk)
  simp only [Schedule.happen, hnew, List.map_nil, List.append_nil, List.foldl_nil, hnone]

theorem changed (h : Quiet known s) {w : World} (hw : w.passes = s.world.passes) :
    Quiet known { s with world := w } :=
  ⟨⟨fun j st hst => h.done j st (hw ▸ hst), h.deadlines, h.known⟩, h.ready,
    h.items.trans (congrArg List.length hw.symm)⟩

/-- A pass that is called for is the only one that goes on. -/
theorem spawned (h : Quiet known s) (r : Request) : s.happen (.spawned r) = { s with
    world := s.world.step (.spawned r)
    items := s.items ++ [[]]
    ready := [s.world.passes.length] } := by
  have hpasses : (s.world.step (.spawned r)).passes = s.world.passes ++ [.ready r] := rfl
  have hnew : (List.range (s.world.step (.spawned r)).passes.length).drop s.world.passes.length =
      [s.world.passes.length] := by
    rw [hpasses, List.length_append, List.length_singleton, List.range_succ, List.drop_append_of_le_length
      (Nat.le_of_eq List.length_range.symm), List.drop_eq_nil_of_le (Nat.le_of_eq List.length_range)]
    rfl
  have hnone : ∀ items ready, Schedule.cancelledCalls { s with
      world := s.world.step (.spawned r), items, ready } = [] := by
    refine fun items ready => Schedule.cancelledCalls_eq_nil fun k hk => ?_
    obtain hk | hk := List.mem_append.1 (hpasses ▸ hk)
    · exact h.not_asking k hk
    · cases List.mem_singleton.1 hk
  simp only [Schedule.happen, hnew, List.map_cons, List.map_nil, List.foldl_cons, List.foldl_nil,
    Schedule.wakePass, h.ready, List.contains_nil, Bool.false_eq_true, if_false, List.nil_append, hnone]

end Quiet

/-! ### Waiting for the source -/

/-- When all passes have ended, a run leaves the world as it is. -/
theorem Over.runs {d : Snapshot} {timeout room : Nat} {answer : Position → Answer} {es : List Event}
    (h : Over (inv room) s) (hsrc : src.Reliable d timeout patient answer inv load)
    (hr : Schedule.Runs src (Schedule.Waits src patient) s es s') :
    s'.world = s.world ∧ Over (inv room) s' := by
  induction hr with
  | refl => exact ⟨rfl, h⟩
  | move _ hm ih =>
    obtain ⟨hworld, hover⟩ := ih
    obtain ⟨-, hworld', hover'⟩ := hover.move hsrc hm
    exact ⟨hworld'.trans hworld, hover'⟩

/-- Time passes up to when the source is due. -/
theorem Over.moveTo {d : Snapshot} {timeout room time : Nat} {answer : Position → Answer}
    (h : Over (inv room) s) (hsrc : src.Reliable d timeout patient answer inv load)
    (ht : s.Waits src patient time) : s.moveTo time = { s with now := time } ∧
      Over (inv room) { s with now := time } := by
  refine ⟨?_, (h.move hsrc (.waited ht)).2.2⟩
  rw [Schedule.moveTo, h.deadlines, List.filter_nil, List.mergeSort_nil, List.foldl_nil]

/-- Where all passes have ended, a schedule stops for what is bound to come of the source before a
given time. -/
theorem Over.stops {d : Snapshot} {timeout room : Nat} {answer : Position → Answer}
    {s : Schedule σ} (h : Over (inv room) s) (hsrc : src.Reliable d timeout patient answer inv load)
    (stop : Schedule σ → Bool) (bound : Nat)
    (hstop : ∀ s' : Schedule σ, Over (inv room) s' → s'.AtRest src → stop s' = false →
      s'.now < bound ∧ (src.due s'.source).isSome = true) :
    ∃ s', s.StopsAt src stop s' ∧ Over (inv room) s' ∧ s'.AtRest src ∧ stop s' = true ∧
      s'.world = s.world ∧ s'.items = s.items := by
  obtain ⟨s₁, hs₁, hover, hrest, hnow, hworld, hitems⟩ :=
    h.rests (i := ⟨0, d, [], 0, timeout, answer, []⟩) hsrc
  cases hends : stop s₁ with
  | true => exact ⟨s₁, .stop hs₁ hends, hover, hrest, hends, hworld, hitems⟩
  | false =>
    obtain ⟨hbound, hdue⟩ := hstop s₁ hover hrest hends
    obtain ⟨t, ht⟩ := Option.isSome_iff_exists.1 hdue
    have hlt := hsrc.rest hover.known hrest.work ht
    have hdue : s₁.due src = some t := by
      rw [Schedule.due, ht, hover.deadlines]
      rfl
    have hwaits : s₁.Waits src patient (max t s₁.now) :=
      ⟨Schedule.punctual_due hdue, fun _ => hrest.work⟩
    obtain ⟨hmove, hover'⟩ := hover.moveTo hsrc hwaits
    -- the clock comes closer to the given time
    obtain ⟨s', hs', hover'', hrest', hends', hworld', hitems'⟩ := hover'.stops hsrc stop bound hstop
    exact ⟨s', .turn hs₁ hends hdue (hmove ▸ hs'), hover'', hrest', hends', hworld'.trans hworld,
      hitems'.trans hitems⟩
termination_by bound - s.now
decreasing_by
  show bound - max t s₁.now < bound - s.now
  omega

end Errand

end AnySpans.Passes
