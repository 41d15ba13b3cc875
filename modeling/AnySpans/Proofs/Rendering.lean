import AnySpans.Proofs.Coverage
import AnySpans.Proofs.Tables

/-!
# What is shown

In every world that comes about, what was shown last of a document is what there is to show of it
(`Analyzer.InStep`), and a call is made only for a document in whose present session and generation
results were kept, and carries what there is to show then (`Analyzer.Shows`).  What there is to show
depends on the results, the errors and the settings: whatever changes one of them either shows the
document again or leaves nothing to show (`Registry.shown_perform`).
-/

namespace AnySpans.Documents

open AnySpans.Lines AnySpans.Text AnySpans.Signature

/-- Whether an operation changes what there is to show of a document and leaves something to show. -/
def Operation.refreshes : Operation → Bool
  | .setErrors _ _ | .commit _ _ _ => true
  | _ => false

namespace Session

theorem shown_of_blank {s : Session} (h : s.Blank) (surface : Bool) : s.shown surface = none := by
  rw [shown, current?_of_blank h]
  rfl

end Session

namespace Registry

variable {r : Registry} {k : Key} {surface : Bool}

theorem shown_congr {j : Key} (h : (j == k) = true) : r.shown j surface = r.shown k surface := by
  rw [shown, shown, session?_congr h]

/-- What there is to show of a document after an operation there was to show before it, unless the
operation sets its errors or keeps results. -/
theorem shown_perform {op : Operation} {ranges : List Range}
    (h : (r.perform op).shown k surface = some ranges)
    (hop : (op.key == k && op.refreshes) = false) : r.shown k surface = some ranges := by
  obtain ⟨s, hs, hshown⟩ := Option.bind_eq_some_iff.1 h
  obtain ⟨hblank, -⟩ | ⟨s₀, h₀, hgoes⟩ := session?_perform hs
  · rw [Session.shown_of_blank hblank] at hshown
    cases hshown
  · refine Option.bind_eq_some_iff.2 ⟨s₀, h₀, ?_⟩
    cases hkey : op.key == k with
    | false =>
      rw [session?_perform_eq, hkey, if_neg (by decide), h₀] at hs
      exact Option.some.inj hs ▸ hshown
    | true =>
      rw [hkey, Bool.true_and] at hop
      cases hgoes with
      | same => exact hshown
      | stored => exact hshown
      | judged => cases hop
      | committed => cases hop

end Registry

end AnySpans.Documents

namespace AnySpans.Passes

open AnySpans.Documents AnySpans.Lines AnySpans.Settings AnySpans.Signature AnySpans.Syntax
  AnySpans.Text

namespace Analyzer

/-- What there is to show of a document. -/
def shown (a : Analyzer) (k : Key) : Option (List Range) :=
  a.registry.shown k a.config.surfaceErrors

/-- If there is something to show of a document, it was shown last. -/
def InStepAt (a : Analyzer) (k : Key) : Prop :=
  ∀ ranges, a.shown k = some ranges → a.sink.shown? k = some ranges

/-- What was shown last of each document is what there is to show of it. -/
def InStep (a : Analyzer) : Prop := ∀ k, a.InStepAt k

/-- Between two states calls were made that carry what there is to show in the later one. -/
def Shows (a a' : Analyzer) : Prop :=
  ∃ made, a'.sink.calls = made ++ a.sink.calls ∧ ∀ c ∈ made, a'.shown c.1 = some c.2

variable {a a' : Analyzer} {j k : Key}

@[simp] theorem config_render (a : Analyzer) (k : Key) : (a.render k).config = a.config := by
  unfold render
  split <;> rfl

@[simp] theorem shown_render (a : Analyzer) (k j : Key) : (a.render k).shown j = a.shown j := by
  rw [shown, registry_render, config_render, shown]

theorem calls_render (a : Analyzer) (k : Key) :
    (a.render k).sink.calls = (a.shown k).toList.map (k, ·) ++ a.sink.calls := by
  unfold render shown
  split
  · rename_i h
    rw [h]
    rfl
  · rename_i h
    rw [h]
    rfl

theorem shows_of_calls_eq (h : a'.sink.calls = a.sink.calls) : a.Shows a' := ⟨[], h, nofun⟩

theorem shows_render (a : Analyzer) (k : Key) : a.Shows (a.render k) := by
  refine ⟨_, a.calls_render k, fun c hc => ?_⟩
  obtain ⟨ranges, hr, rfl⟩ := List.mem_map.1 hc
  rw [shown_render]
  exact Option.mem_toList.1 hr

theorem Shows.trans {a'' : Analyzer} (h : a.Shows a') (h' : a'.Shows a'')
    (heq : ∀ k, a''.shown k = a'.shown k) : a.Shows a'' := by
  obtain ⟨made, hcalls, hmade⟩ := h
  obtain ⟨made', hcalls', hmade'⟩ := h'
  refine ⟨made' ++ made, by rw [hcalls', hcalls, List.append_assoc], fun c hc => ?_⟩
  obtain hc | hc := List.mem_append.1 hc
  · exact hmade' c hc
  · exact (heq c.1).trans (hmade c hc)

@[simp] theorem shown_foldl_render (a : Analyzer) (ks : List Key) (j : Key) :
    (ks.foldl render a).shown j = a.shown j := by
  induction ks generalizing a with
  | nil => rfl
  | cons k ks ih => exact (ih _).trans (a.shown_render k j)

theorem shows_foldl_render (a : Analyzer) (ks : List Key) : a.Shows (ks.foldl render a) := by
  induction ks generalizing a with
  | nil => exact shows_of_calls_eq rfl
  | cons k ks ih => exact (a.shows_render k).trans (ih _) fun j => shown_foldl_render _ ks j

/-! ### In step -/

/-- A document that is shown again is in step. -/
theorem inStepAt_render_self (a : Analyzer) (h : (k == j) = true) : (a.render k).InStepAt j := by
  intro ranges hr
  rw [shown_render, ← show a.shown k = a.shown j from Registry.shown_congr h] at hr
  rw [Sink.shown?, calls_render, hr]
  simp [h]

/-- Showing one document again leaves all others in step. -/
theorem InStepAt.render (h : a.InStepAt j) (k : Key) : (a.render k).InStepAt j := by
  cases hk : k == j with
  | true => exact a.inStepAt_render_self hk
  | false =>
    intro ranges hr
    rw [shown_render] at hr
    have hshown := h ranges hr
    rw [Sink.shown?] at hshown ⊢
    rw [calls_render]
    cases a.shown k with
    | none => exact hshown
    | some _ => simpa [hk] using hshown

theorem inStepAt_foldl_render {ks : List Key} (h : a.InStepAt j ∨ ∃ k ∈ ks, (k == j) = true) :
    (ks.foldl Analyzer.render a).InStepAt j := by
  induction ks generalizing a with
  | nil =>
    obtain h | ⟨k, hk, -⟩ := h
    · exact h
    · cases hk
  | cons k ks ih =>
    refine ih ?_
    obtain h | ⟨i, hi, hij⟩ := h
    · exact .inl (h.render k)
    · obtain rfl | hi := List.mem_cons.1 hi
      · exact .inl (a.inStepAt_render_self hij)
      · exact .inr ⟨i, hi, hij⟩

/-- An operation that leaves nothing new to show keeps everything in step. -/
theorem InStep.perform (h : a.InStep) (op : Operation) (hop : op.refreshes = false) :
    { a with registry := a.registry.perform op }.InStep := by
  intro j ranges hr
  refine h j ranges (Registry.shown_perform hr ?_)
  rw [hop, Bool.and_false]

/-- Everything is in step after an operation whose document is shown again. -/
theorem InStep.perform_render (h : a.InStep) (op : Operation) :
    ({ a with registry := a.registry.perform op }.render op.key).InStep := by
  intro j
  cases hk : op.key == j with
  | true => exact inStepAt_render_self _ hk
  | false =>
    have hold : { a with registry := a.registry.perform op }.InStepAt j := fun ranges hr =>
      h j ranges (Registry.shown_perform hr (by rw [hk, Bool.false_and]))
    exact hold.render op.key

theorem InStep.setErrors (h : a.InStep) (k : Key) (errors : List Range) :
    (a.setErrors k errors).InStep := by
  unfold Analyzer.setErrors
  split
  · exact h.perform_render (.setErrors k errors)
  · exact h

/-- New settings show all documents again. -/
theorem inStep_setConfig (a : Analyzer) (c : Config) : (a.setConfig c).InStep := by
  intro j
  unfold setConfig
  cases hs : a.registry.session? j with
  | none =>
    intro ranges hr
    rw [shown_foldl_render, shown, Registry.shown, hs] at hr
    cases hr
  | some s =>
    obtain ⟨row, hrow, hkey, -⟩ := Table.exists_mem_of_get? hs
    exact inStepAt_foldl_render (.inr ⟨row.1, List.mem_map_of_mem hrow, hkey⟩)

theorem Begins.inStep {r : Request} {s : Stage} (hb : a.Begins r a' s) (h : a.InStep) :
    a'.InStep := by
  cases hb with
  | cached => exact fun j => (h j).render r.key
  | parsed => exact h.perform (.storeTree _ _ _) rfl
  | _ => exact h

theorem Begins.shows {r : Request} {s : Stage} (hb : a.Begins r a' s) : a.Shows a' := by
  cases hb with
  | cached => exact a.shows_render r.key
  | _ => exact shows_of_calls_eq rfl

end Analyzer

/-! ### Steps -/

namespace World

variable {w w' : World} {e : Event}

/-- The calls that a step makes carry what there is to show after it. -/
theorem Steps.shows (h : w.Steps e w') : w.analyzer.Shows w'.analyzer := by
  cases h with
  | errors j ranges =>
    show w.analyzer.Shows (w.analyzer.setErrors j ranges)
    unfold Analyzer.setErrors
    split
    · exact Analyzer.shows_render { w.analyzer with registry := _ } j
    · exact Analyzer.shows_of_calls_eq rfl
  | configured c =>
    exact Analyzer.shows_foldl_render
      { w.analyzer with config := c, sink := { w.analyzer.sink with style := c.style } } _
  | begun _ hb => exact hb.shows
  | committed => exact Analyzer.shows_render { w.analyzer with registry := _ } _
  | _ => exact Analyzer.shows_of_calls_eq rfl

/-- A step keeps everything in step with what is shown. -/
theorem Steps.inStep (h : w.Steps e w') (ho : w.Ordered) (hi : w.analyzer.InStep) :
    w'.analyzer.InStep := by
  cases h with
  | opened j => exact hi.perform (.open' j) rfl
  | closed j => exact hi.perform (.close j) rfl
  | edited j => exact hi.perform (.edit j) rfl
  | errors j ranges => exact hi.setErrors j ranges
  | configured c => exact w.analyzer.inStep_setConfig c
  | begun _ hb => exact hb.inStep hi
  | @committed p k registry hp hdone hc =>
    have hreg : registry = w.analyzer.registry.perform
        (.commit k.ticket k.request.visible k.fan.hits) := by
      rw [Registry.perform, Registry.commit, hc]
      rfl
    have hrender := hi.perform_render (.commit k.ticket k.request.visible k.fan.hits)
    rw [← hreg] at hrender
    rw [← (ho.tickets p k hp).1]
    exact hrender
  | _ => exact hi

end World

/-! ### What the host told last -/

/-- The settings after an event. -/
def Event.settings (c : Config) : Event → Config
  | .configured c' => c'
  | _ => c

/-- The errors of a document after an event, as told since it was opened; none while it is not
open. -/
def Event.errorsOf (k : Key) (told : Option (List Range)) : Event → Option (List Range)
  | .opened j => if (j == k) = true then some (told.getD []) else told
  | .closed j => if (j == k) = true then none else told
  | .errors j ranges => if (j == k) = true then told.map fun _ => ranges else told
  | _ => told

/-- The errors of a document after an operation on a registry. -/
theorem map_errors_perform (r : Registry) (op : Operation) (k : Key) :
    ((r.perform op).session? k).map Session.errors =
      if (op.key == k) = true then
        match op with
        | .open' _ => some (((r.session? k).map Session.errors).getD [])
        | .close _ => none
        | .setErrors _ errors => ((r.session? k).map Session.errors).map fun _ => errors
        | _ => (r.session? k).map Session.errors
      else (r.session? k).map Session.errors := by
  rw [Registry.session?_perform_eq]
  split
  · cases r.session? k with
    | none => cases op <;> rfl
    | some s =>
      cases op with
      | storeTree | commit =>
        simp only [Registry.effect, Option.map_some]
        split <;> rfl
      | _ => rfl
  · rfl

namespace Analyzer

variable {a a' : Analyzer}

theorem config_foldl_render (a : Analyzer) (ks : List Key) :
    (ks.foldl render a).config = a.config := by
  induction ks generalizing a with
  | nil => rfl
  | cons k ks ih => exact (ih _).trans (a.config_render k)

theorem config_setErrors (a : Analyzer) (k : Key) (errors : List Range) :
    (a.setErrors k errors).config = a.config := by
  unfold setErrors
  split
  · exact config_render _ k
  · rfl

theorem Begins.config {r : Request} {s : Stage} (h : a.Begins r a' s) : a'.config = a.config := by
  cases h with
  | cached => exact a.config_render r.key
  | _ => rfl

theorem Begins.errors {r : Request} {s : Stage} (h : a.Begins r a' s) (k : Key) :
    (a'.registry.session? k).map Session.errors = (a.registry.session? k).map Session.errors := by
  cases h with
  | cached => rw [registry_render]
  | parsed => exact (map_errors_perform a.registry (.storeTree _ _ _) k).trans (ite_self _)
  | _ => rfl

end Analyzer

namespace World

variable {w w' : World} {e : Event}

theorem Steps.config (h : w.Steps e w') : w'.analyzer.config = e.settings w.analyzer.config := by
  cases h with
  | errors j ranges => exact w.analyzer.config_setErrors j ranges
  | configured c => exact Analyzer.config_foldl_render _ _
  | begun _ hb => exact hb.config
  | committed => exact Analyzer.config_render _ _
  | _ => rfl

theorem Steps.errors_told (h : w.Steps e w') (k : Key) :
    (w'.analyzer.registry.session? k).map Session.errors =
      e.errorsOf k ((w.analyzer.registry.session? k).map Session.errors) := by
  have hperform := map_errors_perform w.analyzer.registry
  cases h with
  | opened j => exact hperform (.open' j) k
  | closed j => exact hperform (.close j) k
  | edited j => exact (hperform (.edit j) k).trans (ite_self _)
  | errors j ranges =>
    show ((w.analyzer.setErrors j ranges).registry.session? k).map _ = _
    rw [Analyzer.registry_setErrors]
    exact hperform (.setErrors j ranges) k
  | configured c =>
    show ((w.analyzer.setConfig c).registry.session? k).map _ = _
    rw [Analyzer.registry_setConfig]
    rfl
  | begun _ hb => exact hb.errors k
  | @committed p work registry _ _ hc =>
    have hreg : registry = w.analyzer.registry.perform
        (.commit work.ticket work.request.visible work.fan.hits) := by
      rw [Registry.perform, Registry.commit, hc]
      rfl
    show ((Analyzer.render _ _).registry.session? k).map _ = _
    rw [Analyzer.registry_render, hreg]
    exact (hperform _ k).trans (ite_self _)
  | _ => rfl

end World

/-! ### Histories -/

/-- Results were kept in each session in which there are some, in its present generation. -/
def Kept (ms : List Moment) (w : World) : Prop :=
  ∀ j s, w.analyzer.registry.session? j = some s → s.current?.isSome = true →
    ∃ m ∈ ms, ∃ p k, m.Commits p k j s

section

variable {R : Readers} {c : Config} {ms : List Moment} {w w' : World} {e : Event}

theorem Kept.step (h : Kept ms w) (hs : w.Steps e w') : Kept (ms ++ [⟨w, e⟩]) w' := by
  intro j s hj hcurrent
  have hold : ∀ s₀, w.analyzer.registry.session? j = some s₀ → s₀.Alike s →
      s₀.current?.isSome = true → ∃ m ∈ ms ++ [⟨w, e⟩], ∃ p k, m.Commits p k j s := by
    intro s₀ h₀ ha hcurrent
    obtain ⟨m, hm, p, k, hcommits⟩ := h j s₀ h₀ hcurrent
    exact ⟨m, List.mem_append_left _ hm, p, k, hcommits.congr ha⟩
  obtain hsame | ⟨op, hop, hreg⟩ := hs.registry
  · exact hold s (hsame ▸ hj) ⟨rfl, rfl⟩ hcurrent
  rw [hreg] at hj
  obtain ⟨hblank, -⟩ | ⟨s₀, h₀, hgoes⟩ := Registry.session?_perform hj
  · rw [Session.current?_of_blank hblank] at hcurrent
    cases hcurrent
  have ha := hgoes.alike
  cases hgoes with
  | same => exact hold s h₀ ha hcurrent
  | judged => exact hold s₀ h₀ ha hcurrent
  | stored => exact hold s₀ h₀ ha hcurrent
  | committed hkey hadmits =>
    cases hop with
    | finished hp _ hlive =>
      obtain ⟨hn, hg⟩ := Registry.admits_iff.1 hadmits
      exact ⟨_, List.mem_append_right _ (List.mem_singleton_self _), _, _, rfl, hp, hlive, hkey,
        hn.symm, hg.symm⟩

/-- What a run keeps: everything is in step, the settings and the errors are those told last, and
where there are results some pass kept them. -/
structure Rendered (c : Config) (ms : List Moment) (w : World) : Prop where
  ordered : w.Ordered
  inStep : w.analyzer.InStep
  kept : Kept ms w
  config : w.analyzer.config = (ms.map Moment.event).foldl Event.settings c
  errors : ∀ k, (w.analyzer.registry.session? k).map Session.errors =
    (ms.map Moment.event).foldl (Event.errorsOf k) none

theorem rendered_reading (R : Readers) (c : Config) : Rendered c [] (.reading R c) where
  ordered := World.ordered_reading R c
  inStep _ _ h := by cases h
  kept _ _ h := by cases h
  config := rfl
  errors _ := rfl

theorem Rendered.step (h : Rendered c ms w) (hs : w.Steps e w') :
    Rendered c (ms ++ [⟨w, e⟩]) w' where
  ordered := h.ordered.step hs
  inStep := hs.inStep h.ordered h.inStep
  kept := h.kept.step hs
  config := by
    rw [hs.config, h.config, List.map_append, List.foldl_append]
    rfl
  errors k := by
    rw [hs.errors_told, h.errors, List.map_append, List.foldl_append]
    rfl

theorem History.rendered (h : History (.reading R c) ms w) : Rendered c ms w := by
  induction h with
  | start => exact rendered_reading R c
  | step _ hs ih => exact ih.step (World.steps_of_step? hs)

/-- In every world that comes about, what was shown last of a document with results in its present
session and generation is what there is to show under the settings and the errors told last.  Each
further step shows only documents that have such results after it, and shows what there is to show
then; a pass has kept results in the session and generation that is shown. -/
theorem sink_in_step (h : History (.reading R c) ms w) :
    (∀ k s a, w.analyzer.registry.session? k = some s → s.current? = some a →
      ∃ errors, (ms.map Moment.event).foldl (Event.errorsOf k) none = some errors ∧
        w.analyzer.sink.shown? k =
          some (if ((ms.map Moment.event).foldl Event.settings c).surfaceErrors then a.anys
            else retainActionable a.anys errors)) ∧
    ∀ e w', w.step? e = some w' → ∃ made,
      w'.analyzer.sink.calls = made ++ w.analyzer.sink.calls ∧ ∀ call ∈ made, ∃ s a,
        w'.analyzer.registry.session? call.1 = some s ∧ s.current? = some a ∧
        w'.analyzer.registry.shown call.1 w'.analyzer.config.surfaceErrors = some call.2 ∧
        ∃ m ∈ ms ++ [⟨w, e⟩], ∃ p k, m.Commits p k call.1 s := by
  have hr := h.rendered
  refine ⟨fun k s a hs ha => ⟨s.errors, ?_, ?_⟩, fun e w' he => ?_⟩
  · rw [← hr.errors k, hs]
    rfl
  · rw [← hr.config]
    refine hr.inStep k _ ?_
    rw [Analyzer.shown, Registry.shown, hs, Option.bind_some, Session.shown, ha]
    rfl
  · have hstep := World.steps_of_step? he
    obtain ⟨made, hcalls, hmade⟩ := hstep.shows
    refine ⟨made, hcalls, fun call hcall => ?_⟩
    have hshown := hmade call hcall
    obtain ⟨s, hs, hsome⟩ := Option.bind_eq_some_iff.1 hshown
    obtain ⟨a, ha, -⟩ := Option.map_eq_some_iff.1 hsome
    exact ⟨s, a, hs, ha, hshown, (hr.kept.step hstep) call.1 s hs (ha ▸ rfl)⟩

end

/-! ### Two lines with an error -/

namespace TwoLines

/-- The first line has an error after all passes over both lines. -/
def eventsWithError : List Event := events ++ [.errors document.key [⟨⟨0, 0⟩, ⟨0, 1⟩⟩]]

/-- Settings that show ranges with errors too. -/
def surfacing : Config := { Config.builtIn with surfaceErrors := true }

end TwoLines

open TwoLines in
/-- After an error on the first line only the second line is shown, and new settings show both
again. -/
theorem shown_of_two_lines :
    History start (start.moments eventsWithError) (eventsWithError.foldl World.step start) ∧
      (eventsWithError.foldl World.step start).analyzer.sink.shown? document.key =
        some [⟨⟨1, 0⟩, ⟨1, 1⟩⟩, ⟨⟨1, 0⟩, ⟨1, 1⟩⟩] ∧
      ∃ w' made, (eventsWithError.foldl World.step start).step? (.configured surfacing) = some w' ∧
        w'.analyzer.sink.calls =
          made ++ (eventsWithError.foldl World.step start).analyzer.sink.calls ∧
        (made.map Prod.snd = [[⟨⟨0, 0⟩, ⟨0, 1⟩⟩, ⟨⟨1, 0⟩, ⟨1, 1⟩⟩, ⟨⟨1, 0⟩, ⟨1, 1⟩⟩]]) ∧
        ∀ call ∈ made, ∃ s a, w'.analyzer.registry.session? call.1 = some s ∧
          s.current? = some a ∧
          w'.analyzer.registry.shown call.1 w'.analyzer.config.surfaceErrors = some call.2 ∧
          ∃ m ∈ start.moments eventsWithError ++
            [⟨eventsWithError.foldl World.step start, .configured surfacing⟩],
            ∃ p k, m.Commits p k call.1 s := by
  have hrun : History start (start.moments eventsWithError)
      (eventsWithError.foldl World.step start) := World.history_moments (by decide +kernel)
  obtain ⟨hshown, hcalls⟩ := sink_in_step hrun
  have hcurrent : ((eventsWithError.foldl World.step start).analyzer.registry.analysis?
      document.key).map Analysis.anys =
        some [⟨⟨0, 0⟩, ⟨0, 1⟩⟩, ⟨⟨1, 0⟩, ⟨1, 1⟩⟩, ⟨⟨1, 0⟩, ⟨1, 1⟩⟩] := by
    decide +kernel
  obtain ⟨a, ha, hanys⟩ := Option.map_eq_some_iff.1 hcurrent
  obtain ⟨s, hs, ha⟩ := Option.bind_eq_some_iff.1 ha
  obtain ⟨errors, herrors, hlast⟩ := hshown document.key s a hs ha
  rw [World.map_event_moments] at herrors hlast
  have htold : eventsWithError.foldl (Event.errorsOf document.key) none =
      some [⟨⟨0, 0⟩, ⟨0, 1⟩⟩] := by decide +kernel
  obtain rfl : [⟨⟨0, 0⟩, ⟨0, 1⟩⟩] = errors := Option.some.inj (htold.symm.trans herrors)
  obtain ⟨made, hmade, hall⟩ := hcalls (.configured surfacing) _ rfl
  have hranges := congrArg (List.map Prod.snd) hmade
  rw [List.map_append] at hranges
  refine ⟨hrun, hlast.trans (by rw [hanys]; decide +kernel), _, made, rfl, hmade, ?_, hall⟩
  refine List.append_cancel_right (hranges.symm.trans ?_)
  decide +kernel

end AnySpans.Passes
