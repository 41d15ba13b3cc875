import AnySpans.Proofs.Bookkeeping
import AnySpans.Proofs.Quiet
import AnySpans.Proofs.Rendering

/-!
# Passes from one quiet moment to the next

A pass over some lines of an open document that alone asks a reliable source comes to its end, keeps
what it found, and leaves the schedule as quiet as it was (`Errand.Quiet.pass`).  What it does not
touch are the settings and the errors of documents (`World.Continues`).
-/

namespace AnySpans.Passes

open AnySpans.Documents AnySpans.Lines AnySpans.Settings AnySpans.Syntax AnySpans.Text

/-! ### What passes leave alone -/

namespace World

variable {w w' w'' : World} {e : Event} {p : Nat}

/-- Passes were called for and made steps: the settings and the errors of documents are the same. -/
structure Continues (w w' : World) : Prop where
  config : w'.analyzer.config = w.analyzer.config
  errors : ∀ k, (w'.analyzer.registry.session? k).map Session.errors =
    (w.analyzer.registry.session? k).map Session.errors
  history : ∀ {start : World} {ms : List Moment}, History start ms w → ∃ ms', History start ms' w'

namespace Continues

theorem refl (w : World) : w.Continues w := ⟨rfl, fun _ => rfl, fun h => ⟨_, h⟩⟩

theorem trans (h : w.Continues w') (h' : w'.Continues w'') : w.Continues w'' where
  config := h'.config.trans h.config
  errors k := (h'.errors k).trans (h.errors k)
  history hw := by
    obtain ⟨ms, hms⟩ := h.history hw
    exact h'.history hms

theorem of_step (hs : w.step? e = some w') (hconfig : ∀ c, e.settings c = c)
    (herrors : ∀ k told, e.errorsOf k told = told) : w.Continues w' where
  config := (steps_of_step? hs).config.trans (hconfig _)
  errors k := ((steps_of_step? hs).errors_told k).trans (herrors k _)
  history hw := ⟨_, hw.step hs⟩

theorem spawned (w : World) (r : Request) : w.Continues (w.step (.spawned r)) :=
  of_step (e := .spawned r) rfl (fun _ => rfl) fun _ _ => rfl

theorem of_pass (hs : w.step? e = some w') (hp : e.pass? = some p) : w.Continues w' := by
  refine of_step hs (fun c => ?_) fun k told => ?_ <;> cases e <;> first | rfl | cases hp

end Continues

/-- A pass keeps its place. -/
theorem length_passes_of_pass (hs : w.step? e = some w') (hp : e.pass? = some p) :
    w'.passes.length = w.passes.length := by
  refine (steps_of_step? hs).length_passes ?_
  cases e <;> first | rfl | cases hp

/-- A pass that is finished has looked at its lines. -/
theorem Steps.exists_outcome (hs : w.Steps (.finished p) w') : ∃ r o,
    w'.passes[p]? = some (.done r (.outcome o)) ∧ o ≠ .unsupported ∧ o ≠ .closed := by
  cases hs with
  | stale hi => exact ⟨_, .stale, getElem?_set_self hi _, nofun, nofun⟩
  | committed hi => exact ⟨_, .committed _ _, getElem?_set_self hi _, nofun, nofun⟩

end World

theorem Schedule.Runs.continues {σ : Type} {src : Source σ} {may : Schedule σ → Nat → Prop}
    {s s' : Schedule σ} {es : List Event} (h : Schedule.Runs src may s es s') :
    s.world.Continues s'.world ∧ s'.world.passes.length = s.world.passes.length := by
  induction h with
  | refl => exact ⟨.refl _, rfl⟩
  | move _ hm ih =>
    obtain ⟨hcontinues, hlength⟩ := ih
    obtain ⟨-, hw⟩ | ⟨e, p, -, hp, hs⟩ := hm.world
    · exact hw ▸ ⟨hcontinues, hlength⟩
    · exact ⟨hcontinues.trans (.of_pass hs hp), (World.length_passes_of_pass hs hp).trans hlength⟩

/-! ### A pass over a document that is held -/

section

variable {R : Readers} {d : Snapshot} {dialect : Dialect} {tree : Tree} {answer : Position → Answer}
  {v : LineRange} {cs : List Candidate} {x : Session} {w : World} {a : Analyzer} {st : Stage}

/-- A pass that begins asks about its candidates, if its lines were not all looked at before. -/
theorem cached_or_asking (hq : Asks R d dialect tree v cs x) (held : Held R d dialect tree w x)
    (hb : w.analyzer.Begins ⟨d, v⟩ a st) :
    (st = .done ⟨d, v⟩ (.outcome .cached) ∧ cs = []) ∨ ∃ t token, st = .asking
      ⟨⟨d, v⟩, t, token, cs.length, w.analyzer.config.queryTimeout,
        .start w.analyzer.config.maxQueries cs⟩ := by
  obtain ⟨hempty, -, rfl⟩ | ⟨token, rfl, -⟩ := held.begins hq.detect hq.parse hb
  · exact .inl ⟨rfl, hq.nil hempty⟩
  · exact .inr ⟨_, _, Analyzer.beginAsking_of_questions _ _ _ _ hq.questions⟩

end

namespace Errand

variable {σ : Type} {inv : Nat → σ → Nat → List Posed → Prop} {load : σ → Nat → Nat} {src : Source σ}
  {patient : Prop} {s s' : Schedule σ} {R : Readers} {d : Snapshot} {dialect : Dialect} {tree : Tree}
  {answer : Position → Answer} {v : LineRange} {cs : List Candidate} {x : Session} {room p : Nat}

/-- One pass is called for, and all others have ended. -/
structure Starts (known : σ → Nat → List Posed → Prop) (p : Nat) (r : Request) (s : Schedule σ) :
    Prop where
  stage : s.world.passes[p]? = some (.ready r)
  alone : Alone p s.world
  ready : s.ready = [p]
  inside : p < s.items.length
  items : s.itemsOf p = []
  deadlines : s.deadlines = []
  known : known s.source s.now []

theorem Quiet.starts {known : σ → Nat → List Posed → Prop} (h : Quiet known s) (r : Request) :
    Starts known s.world.passes.length r (s.happen (.spawned r)) := by
  rw [h.spawned]
  have hpasses : (s.world.step (.spawned r)).passes = s.world.passes ++ [.ready r] := rfl
  refine ⟨List.getElem?_concat_length, fun j st hj hst => ?_, rfl, ?_, ?_, h.deadlines, h.known⟩
  · rw [hpasses] at hst
    have hlt := (List.getElem?_eq_some_iff.1 hst).1
    rw [List.length_append, List.length_singleton] at hlt
    rw [List.getElem?_append_left (by omega)] at hst
    exact h.done j st hst
  · rw [List.length_append, h.items]
    exact Nat.lt_succ_self _
  · show (s.items ++ [[]]).getD s.world.passes.length [] = []
    rw [← h.items, List.getD_eq_getElem?_getD, List.getElem?_concat_length]
    rfl

/-- What a pass over some lines of a document has to do. -/
def toLook (s : Schedule σ) (p : Nat) (d : Snapshot) (cs : List Candidate)
    (answer : Position → Answer) : Errand :=
  ⟨p, d, cs, max s.world.analyzer.config.maxQueries 1, s.world.analyzer.config.queryTimeout, answer,
    s.world.asked⟩

namespace Starts

/-- A pass that has just begun asks about its candidates. -/
theorem asking (h : Starts (inv (cs.length + room)) p ⟨d, v⟩ s) {w : World} {k : Work} {t : Ticket}
    {token : Token} (hk : k = ⟨⟨d, v⟩, t, token, cs.length, s.world.analyzer.config.queryTimeout,
      .start s.world.analyzer.config.maxQueries cs⟩)
    (hstage : w.passes[p]? = some (.asking k)) (halone : Alone p w) (hasked : w.asked = s.world.asked)
    (hlive : w.isCancelled k = false) :
    (toLook s p d cs answer).Asking (fun room' => inv (room' + room)) { s with world := w } k := by
  subst hk
  refine ⟨hstage, hlive, halone, rfl, rfl, .start _ _ _, rfl, Nat.zero_le _, ⟨0, rfl, hasked⟩, [], rfl,
    h.deadlines, ?_⟩
  show inv ((numbered cs).length + room) s.source s.now []
  rw [show (numbered cs).length = cs.length by simp [numbered]]
  exact h.known

/-- A pass over some lines of a document that is held comes to its end by steps of its own; in the end
it has looked at its lines. -/
theorem ends (h : Starts (inv (cs.length + room)) p ⟨d, v⟩ s) (held : Held R d dialect tree s.world x)
    (hq : Asks R d dialect tree v cs x)
    (hsrc : src.Reliable d s.world.analyzer.config.queryTimeout patient answer inv load) :
    ∃ s', Ends src patient (toLook s p d cs answer) (fun room' => inv (room' + room))
        { s with world := s.world.step (.begun p) } s s' ∧
      s.world.GoesOn answer d.key p s'.world ∧
      ∃ r o, s'.world.passes[p]? = some (.done r (.outcome o)) ∧ o ≠ .unsupported ∧ o ≠ .closed := by
  have hkept : src.Reliable d s.world.analyzer.config.queryTimeout patient answer
    (fun room' => inv (room' + room)) load := hsrc.keepRoom room
  have hbegun := World.step?_eq_step (by rw [World.step?_begun h.stage]; rfl)
  have hworld := Option.some.inj (hbegun.symm.trans (World.step?_begun h.stage))
  have hpasses := congrArg World.passes hworld
  have hstage := congrArg (·[p]?) hpasses
  have halone := h.alone.set h.stage hpasses
  replace hstage : (s.world.step (.begun p)).passes[p]? =
    some (s.world.analyzer.beginPass ⟨d, v⟩).2 := hstage.trans (World.getElem?_set_self h.stage _)
  have hgo : s.world.GoesOn answer d.key p (s.world.step (.begun p)) :=
    .own .refl hbegun (advances rfl nofun)
  have hends := ends_of_ready (i := toLook s p d cs answer) h.stage h.alone h.ready h.inside h.items
    h.deadlines hkept
  obtain ⟨hst, rfl⟩ | ⟨t, token, hst⟩ :=
    cached_or_asking hq held (s.world.analyzer.beginPass_begins ⟨d, v⟩)
  · -- the lines were all looked at before
    rw [hst] at hstage
    obtain ⟨s', hend⟩ := hends (.inl ⟨h.known, _, hstage⟩)
    have hover : Over (inv (0 + room)) { s with world := s.world.step (.begun p) } := by
      refine ⟨fun j st hj => ?_, h.deadlines, h.known⟩
      by_cases hjp : j = p
      · subst hjp
        rw [← Option.some.inj (hstage.symm.trans hj)]
        rfl
      · exact halone j st hjp hj
    obtain ⟨es, hruns⟩ := hend.runs
    obtain ⟨hsame, -⟩ := hover.runs hsrc hruns
    replace hsame : s'.world = s.world.step (.begun p) := hsame
    exact ⟨s', hend, by rwa [hsame], ⟨d, v⟩, .cached, by rwa [hsame], by decide, by decide⟩
  · rw [hst] at hstage
    have hready : Turning R d dialect tree answer v cs x (s.world.queries d.key) s.world
      (.ready ⟨d, v⟩) := .ready held (.refl x) rfl
    obtain ⟨st', hst', hturning, -⟩ :=
      hready.own hq h.stage (World.steps_of_step? hbegun) (advances rfl (by simp))
    obtain rfl := Option.some.inj (hstage.symm.trans hst')
    cases hturning with
    | asking hunderway =>
      obtain ⟨x₁, held₁, -, hadmits⟩ := hunderway.admitted
      have hlive := (held₁.not_cancelled hstage hunderway.key hadmits).2
      have hasked : (s.world.step (.begun p)).asked = s.world.asked := by rw [hworld]; rfl
      have hasking : (toLook s p d cs answer).Asking (fun room' => inv (room' + room)) _ _ :=
        h.asking rfl hstage halone hasked hlive
      obtain ⟨s', hend⟩ := hends (.inr ⟨_, hasking⟩)
      obtain ⟨es, hruns⟩ := hend.runs
      obtain ⟨hgo', ⟨fan, hstill⟩ | ⟨-, es₁, s₁, fan, -, -, -, hfin⟩⟩ := hasking.run hkept hruns
      · cases hend.isOver.done _ _ hstill.stage
      · exact ⟨s', hend, hgo.trans hgo', (World.steps_of_step? hfin).exists_outcome⟩

end Starts

/-- A pass over some lines of a document that is called for in a quiet moment comes to its end.  It has
looked at its lines then and kept what it found, and the schedule is quiet again. -/
theorem Quiet.pass (h : Quiet (inv (cs.length + room)) s) (held : Held R d dialect tree s.world x)
    (hq : Asks R d dialect tree v cs x)
    (hsrc : src.Reliable d s.world.analyzer.config.queryTimeout patient answer inv load) :
    ∃ s' x' r o, (s.happen (.spawned ⟨d, v⟩)).StopsAt src
        (Schedule.hasEnded s.world.passes.length) s' ∧
      s'.world.passes[s.world.passes.length]? = some (.done r (.outcome o)) ∧ o ≠ .unsupported ∧
      o ≠ .closed ∧ Quiet (inv room) s' ∧ Held R d dialect tree s'.world x' ∧
      Gained answer v cs x x' ∧ s.world.Continues s'.world := by
  have hstarts := h.starts ⟨d, v⟩
  obtain ⟨hready, hturning⟩ : _ ∧ Turning R d dialect tree answer v cs x (s.world.queries d.key)
    (s.world.step (.spawned ⟨d, v⟩)) (.ready ⟨d, v⟩) := turning_of_spawned held rfl
  have hspawned := h.spawned ⟨d, v⟩
  generalize s.happen (.spawned ⟨d, v⟩) = s₁ at hstarts hspawned
  have hworld : s₁.world = s.world.step (.spawned ⟨d, v⟩) := by rw [hspawned]
  have held₁ : Held R d dialect tree s₁.world x :=
    hworld ▸ held.step (World.steps_of_step? (e := .spawned ⟨d, v⟩) rfl) held.session held.kept
  have hconfig : s₁.world.analyzer.config = s.world.analyzer.config := by rw [hworld]; rfl
  obtain ⟨s', hend, hgo, r, o, hdone, hsupported, hopen⟩ := hstarts.ends held₁ hq (hconfig ▸ hsrc)
  obtain ⟨st', hst', hturning'⟩ := exists_turning_of_goesOn hq (hworld ▸ hgo) hready hturning
  obtain rfl := Option.some.inj (hdone.symm.trans hst')
  obtain ⟨es, hruns⟩ := hend.runs
  obtain ⟨hcontinues, hlength⟩ := hruns.continues
  have hbegun := World.step?_eq_step (by rw [World.step?_begun hstarts.stage]; rfl)
  have hitems := hend.stops.length_items
  rw [hspawned, List.length_append, h.items] at hitems
  cases hturning' with
  | @done x' _ _ held' gained _ =>
    refine ⟨s', x', r, o, hend.stops, hdone, hsupported, hopen, ⟨?_, hend.rest.ready, ?_⟩, held', gained,
      (hworld ▸ World.Continues.spawned _ _).trans ((World.Continues.of_pass hbegun rfl).trans hcontinues)⟩
    · exact Nat.zero_add room ▸ hend.isOver
    · have hpasses : s₁.world.passes = s.world.passes ++ [.ready ⟨d, v⟩] := by rw [hworld]; rfl
      rw [hitems, hlength, World.length_passes_of_pass hbegun rfl, hpasses, List.length_append]
      rfl

end Errand

end AnySpans.Passes
