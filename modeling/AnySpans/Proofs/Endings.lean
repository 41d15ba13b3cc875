import AnySpans.Proofs.KeptTrees
import AnySpans.Proofs.Paging

/-!
# How passes end

A pass that gets a tree holds the ticket of its document's present generation; the ticket holds until
the document is edited while it is open, or closed, and lapses then for good (`History.ticket`).  So
whether the pass keeps its results follows from what happens to the document between the moments at
which it begins and ends.  A pass that ends in another way leaves no trace but, at most, a tree that
was stored with a current ticket (`Analyzer.Spares`).
-/

namespace AnySpans.Passes

open AnySpans.Documents AnySpans.Lines AnySpans.Settings AnySpans.Syntax AnySpans.Text

/-! ### What is said about endings -/

/-- A pass ended without results to keep or to show. -/
inductive Ending.Fruitless : Ending → Prop
  | unsupported : Fruitless (.outcome .unsupported)
  | closed : Fruitless (.outcome .closed)
  | stale : Fruitless (.outcome .stale)
  | refused (e : SyntaxError) : Fruitless (.refused e)

/-- An analyzer becomes another one by no more than storing a tree of a document, with a ticket that
is current. -/
structure Analyzer.Spares (a : Analyzer) (k : Key) (a' : Analyzer) : Prop where
  treeless : a'.treeless = a.treeless
  registry : a'.registry = a.registry ∨ ∃ t d tree, t.key = k ∧ a.registry.isCurrent t = true ∧
    a'.registry = a.registry.storeTree t d tree

theorem Analyzer.Spares.refl (a : Analyzer) (k : Key) : a.Spares k a := ⟨rfl, .inl rfl⟩

namespace Moment

/-- At a moment a document that is open is edited or closed. -/
def Ends (m : Moment) (j : Key) : Prop :=
  m.event.ends j = true ∧ m.world.analyzer.registry.isOpen j = true

/-- At a moment a pass begins, plans work and has a tree: one that is kept, or else the one it
parses. -/
def GetsTree (m : Moment) (p : Nat) (r : Request) : Prop :=
  ∃ d t kept, m.Plans p r d t kept ∧ (kept = none →
    ∃ tree, m.world.analyzer.readers.parse d r.document.text.toList = .ok tree)

end Moment

/-- Some moments are those between one at which a pass gets a tree and one at which it is
finished. -/
def WorksThrough (ms : List Moment) (p : Nat) (r : Request) (between : List Moment) : Prop :=
  ∃ before m₀ m₁ after, ms = before ++ m₀ :: (between ++ m₁ :: after) ∧ m₀.GetsTree p r ∧
    m₁.event = .finished p

/-! ### What happens to a ticket -/

section

variable {R : Readers} {c : Config} {w w' w₁ w₂ start : World} {ms : List Moment} {m : Moment}
  {e : Event} {p : Nat} {r : Request} {k : Work} {t : Ticket} {token : Token} {o : Ending}

/-- A ticket that holds lapses if its document is edited or closed, and only then. -/
theorem World.Steps.ticket (hs : w.Steps e w') (hr : w.analyzer.registry.Sound)
    (h : w.analyzer.registry.Holds t token) :
    Moment.Ends ⟨w, e⟩ t.key ∧ w'.analyzer.registry.Lapsed t token ∨
      ¬ Moment.Ends ⟨w, e⟩ t.key ∧ w'.analyzer.registry.Holds t token := by
  by_cases hends : Moment.Ends ⟨w, e⟩ t.key
  · obtain ⟨he, hopen⟩ := hends
    have hlapsed : ∀ {j : Key} {r' : Registry}, (j == t.key) = true →
        w.analyzer.registry.Change j (w.analyzer.registry.isOpen j) r' → r'.Lapsed t token := by
      intro j r' hj hc
      have := h.change hr hc
      have hopen : w.analyzer.registry.isOpen j = true :=
        (congrArg Option.isSome (Registry.session?_congr hj)).trans hopen
      rwa [hj, hopen, Bool.and_self, if_pos rfl] at this
    refine .inl ⟨⟨he, hopen⟩, ?_⟩
    cases hs with
    | closed j => exact hlapsed he (w.analyzer.registry.close_change j)
    | edited j => exact hlapsed he (w.analyzer.registry.edit_change j)
    | _ => cases he
  · refine .inr ⟨hends, ?_⟩
    obtain hsame | ⟨op, hop, hreg⟩ := hs.registry
    · exact hsame ▸ h
    have := h.change hr (w.analyzer.registry.perform_change op)
    split at this
    · rename_i hcond
      obtain ⟨hkey, hop'⟩ := Bool.and_eq_true_iff.1 hcond
      have hopen : w.analyzer.registry.isOpen t.key = true := by
        obtain ⟨s, hs, -⟩ := h
        exact Registry.isOpen_iff.2 ⟨s, hs⟩
      cases hop with
      | closed j => exact absurd ⟨hkey, hopen⟩ hends
      | edited j => exact absurd ⟨hkey, hopen⟩ hends
      | _ => cases hop'
    · exact hreg ▸ this

/-- A ticket that holds goes on to hold for as long as its document is neither edited nor closed. -/
theorem History.ticket (h : History start ms w) (ho : start.Ordered)
    (ht : start.analyzer.registry.Holds t token) :
    (∃ m ∈ ms, m.Ends t.key) ∧ w.analyzer.registry.Lapsed t token ∨
      (∀ m ∈ ms, ¬ m.Ends t.key) ∧ w.analyzer.registry.Holds t token := by
  induction h with
  | start => exact .inr ⟨fun m hm => absurd hm List.not_mem_nil, ht⟩
  | @step ms w w' e h hs ih =>
    have hs := World.steps_of_step? hs
    obtain ⟨⟨m, hm, hends⟩, hlapsed⟩ | ⟨hnone, hholds⟩ := ih
    · obtain ⟨j, ends, hc⟩ := hs.change
      exact .inl ⟨⟨m, List.mem_append_left _ hm, hends⟩, hlapsed.change hc⟩
    · obtain ⟨hends, hlapsed⟩ | ⟨hends, hholds⟩ := hs.ticket (ho.history h).sound hholds
      · exact .inl ⟨⟨_, List.mem_append_right _ (List.mem_singleton_self _), hends⟩, hlapsed⟩
      · refine .inr ⟨fun m hm => ?_, hholds⟩
        obtain hm | hm := List.mem_append.1 hm
        · exact hnone m hm
        · exact List.mem_singleton.1 hm ▸ hends

/-! ### What becomes of a pass -/

/-- A pass that has ended stays as it ended. -/
theorem History.done (h : History start ms w) (hp : start.passes[p]? = some (.done r o)) :
    w.passes[p]? = some (.done r o) := by
  induction h with
  | start => exact hp
  | step _ hs ih =>
    obtain ⟨s, hs', hbecomes⟩ := (World.steps_of_step? hs).becomes ih
    cases hbecomes
    exact hs'

/-- A pass that asks goes on asking, with the same ticket, until it is finished. -/
theorem History.asking (h : History start ms w) (hp : start.passes[p]? = some (.asking k)) :
    (∃ fan, w.passes[p]? = some (.asking { k with fan })) ∨
      ∃ o, o.Finished ∧ w.passes[p]? = some (.done k.request o) := by
  induction h with
  | start => exact .inl ⟨k.fan, hp⟩
  | step _ hs ih =>
    have hs := World.steps_of_step? hs
    obtain ⟨fan, hk⟩ | ⟨o, ho, hdone⟩ := ih
    · obtain ⟨s, hs', hbecomes⟩ := hs.becomes hk
      cases hbecomes with
      | same => exact .inl ⟨fan, hs'⟩
      | @moved _ fan' => exact .inl ⟨fan', hs'⟩
      | stale => exact .inr ⟨_, .stale, hs'⟩
      | committed => exact .inr ⟨_, .committed _ _, hs'⟩
    · obtain ⟨s, hs', hbecomes⟩ := hs.becomes hdone
      cases hbecomes
      exact .inr ⟨o, ho, hs'⟩

/-- A pass that gets a tree asks, or breaks off. -/
theorem Analyzer.Begins.of_getsTree {a : Analyzer} {s : Stage} (hb : w.analyzer.Begins r a s)
    (hm : Moment.GetsTree ⟨w, e⟩ p r) : (∃ k, s = .asking k) ∨ ∃ f, s = .done r (.broken f) := by
  obtain ⟨d, t, kept, ⟨-, -, hd, lines, token, hplan⟩, htree⟩ := hm
  have hbegun : ∀ t token lines tree,
      (∃ k, w.analyzer.beginAsking r t token lines tree = .asking k) ∨
        ∃ f, w.analyzer.beginAsking r t token lines tree = .done r (.broken f) := by
    intro t token lines tree
    obtain ⟨f, hf⟩ | ⟨cs, -, hcs⟩ := w.analyzer.beginAsking_cases r t token lines tree
    · exact .inr ⟨f, hf⟩
    · exact .inl ⟨_, hcs⟩
  cases hb with
  | unsupported hnone => cases hd.symm.trans hnone
  | closed hd' hplan' | cached hd' hplan' =>
    obtain rfl := Option.some.inj (hd.symm.trans hd')
    cases hplan.symm.trans hplan'
  | refused hd' hplan' hparse =>
    obtain rfl := Option.some.inj (hd.symm.trans hd')
    cases hplan.symm.trans hplan'
    obtain ⟨tree, htree⟩ := htree rfl
    cases hparse.symm.trans htree
  | reused => exact hbegun _ _ _ _
  | parsed => exact hbegun _ _ _ _

/-- A pass that asks after it got a tree has a ticket of its document, and the ticket holds. -/
theorem World.Steps.of_getsTree (hs : w.Steps e w') (hr : w.analyzer.registry.Sound)
    (hm : Moment.GetsTree ⟨w, e⟩ p r) :
    (∃ k, w'.passes[p]? = some (.asking k) ∧ k.request = r ∧ k.ticket.key = r.key ∧
      w'.analyzer.registry.Holds k.ticket k.token) ∨
      ∃ f, w'.passes[p]? = some (.done r (.broken f)) := by
  obtain ⟨he, hp⟩ : e = .begun p ∧ w.passes[p]? = some (.ready r) := by
    obtain ⟨_, _, _, hplans, -⟩ := hm
    exact ⟨hplans.event, hplans.ready⟩
  cases hs with
  | @begun i r' a s hi hb =>
    cases he
    obtain rfl := Stage.ready.inj (Option.some.inj (hi.symm.trans hp))
    have hstage : (w.passes.set p s)[p]? = some s := World.getElem?_set_self hi s
    obtain ⟨k, rfl⟩ | ⟨f, rfl⟩ := hb.of_getsTree hm
    · obtain ⟨hrequest, hkey, -⟩ := hb.holds
      exact .inl ⟨k, hstage, hrequest, hkey, hb.holds_after hr⟩
    · exact .inr ⟨f, hstage⟩
  | _ => cases he

/-- A pass that asks was begun, and got a tree then. -/
theorem History.exists_getsTree (h : History (.reading R c) ms w)
    (hp : w.passes[p]? = some (.asking k)) :
    ∃ before m₀ between, ms = before ++ m₀ :: between ∧ m₀.GetsTree p k.request := by
  induction h generalizing k with
  | start => cases hp
  | @step ms w w' e h hs ih =>
    obtain ⟨rfl, r, hr, hb⟩ | ⟨k', hk', hsame, -⟩ := (World.steps_of_step? hs).asking_before hp
    · refine ⟨ms, _, [], rfl, ?_⟩
      obtain ⟨hrequest, -, -⟩ := hb.holds
      obtain ⟨d, t, lines, token, kept, tree, hd, hplan, -, htree⟩ := hb.exists_plan
      refine hrequest ▸ ⟨d, t, kept, ⟨rfl, hr, hd, lines, token, hplan⟩, ?_⟩
      obtain ⟨rfl, -⟩ | ⟨-, hparse, -⟩ := htree
      · exact nofun
      · exact fun _ => ⟨tree, hparse⟩
    · obtain ⟨before, m₀, between, rfl, hm⟩ := ih hk'
      exact ⟨before, m₀, between ++ [⟨w, e⟩], by simp, hsame ▸ hm⟩

/-- A pass that is finished after a step was so before it or is finished by the step. -/
theorem World.Steps.finished_before (hs : w.Steps e w') (ho : o.Finished)
    (hp : w'.passes[p]? = some (.done r o)) : w.passes[p]? = some (.done r o) ∨
      e = .finished p ∧ ∃ k, w.passes[p]? = some (.asking k) ∧ k.request = r := by
  cases hs with
  | spawned r' =>
    obtain hp | ⟨hs, -⟩ := World.stage_of_append hp
    · exact .inl hp
    · cases hs
  | begun hi hb =>
    obtain ⟨-, rfl⟩ | hp := World.stage_of_set hi hp
    · obtain ⟨k, hs, -⟩ | ⟨o', hs, hno⟩ := hb.stage
      · cases hs
      · cases hs
        exact absurd ho hno
    · exact .inl hp
  | asked hi | skipped hi | answered hi | dropped hi =>
    obtain ⟨-, hs⟩ | hp := World.stage_of_set hi hp
    · cases hs
    · exact .inl hp
  | stale hi | committed hi =>
    obtain ⟨rfl, hs⟩ | hp := World.stage_of_set hi hp
    · cases hs
      exact .inr ⟨rfl, _, hi, rfl⟩
    · exact .inl hp
  | _ => exact .inl hp

/-- A pass that was finished got a tree before. -/
theorem History.exists_worksThrough (h : History (.reading R c) ms w) (ho : o.Finished)
    (hp : w.passes[p]? = some (.done r o)) : ∃ between, WorksThrough ms p r between := by
  induction h with
  | start => cases hp
  | @step ms w w' e h hs ih =>
    obtain hp | ⟨rfl, k, hk, rfl⟩ := (World.steps_of_step? hs).finished_before ho hp
    · obtain ⟨between, before, m₀, m₁, after, rfl, hm₀, hm₁⟩ := ih hp
      exact ⟨between, before, m₀, m₁, after ++ [⟨w, e⟩], by simp, hm₀, hm₁⟩
    · obtain ⟨before, m₀, between, rfl, hm₀⟩ := h.exists_getsTree hk
      exact ⟨between, before, m₀, ⟨w, .finished p⟩, [], by simp, hm₀, rfl⟩

/-- A pass that is finished keeps its results if its ticket is current. -/
theorem World.Steps.of_finished (hs : w.Steps (.finished p) w') :
    ∃ k, w.passes[p]? = some (.asking k) ∧
      ((w.analyzer.registry.isCurrent k.ticket = true ∧ ∃ n hits,
          w'.passes[p]? = some (.done k.request (.outcome (.committed n hits)))) ∨
        w.analyzer.registry.isCurrent k.ticket = false ∧
          w'.passes[p]? = some (.done k.request (.outcome .stale))) := by
  cases hs with
  | @stale _ k hi _ hc =>
    have hcurrent := Registry.commit?_isSome k.request.visible k.fan.hits
      (r := w.analyzer.registry) (t := k.ticket)
    rw [hc] at hcurrent
    exact ⟨k, hi, .inr ⟨hcurrent.symm, World.getElem?_set_self hi _⟩⟩
  | @committed _ k registry hi _ hc =>
    have hcurrent := Registry.commit?_isSome k.request.visible k.fan.hits
      (r := w.analyzer.registry) (t := k.ticket)
    rw [hc] at hcurrent
    exact ⟨k, hi, .inl ⟨hcurrent.symm, _, _, World.getElem?_set_self hi _⟩⟩

/-- Whether a pass keeps its results is told by what happened to its document in between. -/
theorem WorksThrough.ending {between : List Moment} (hw : WorksThrough ms p r between)
    (h : History (.reading R c) ms w) :
    ((∀ m ∈ between, ¬ m.Ends r.key) ∧ ∃ n hits,
        w.passes[p]? = some (.done r (.outcome (.committed n hits)))) ∨
      (∃ m ∈ between, m.Ends r.key) ∧ w.passes[p]? = some (.done r (.outcome .stale)) := by
  obtain ⟨before, m₀, m₁, after, rfl, hm₀, hm₁⟩ := hw
  obtain ⟨w₀, hbefore, -, hs₀, hrest⟩ := h.split
  obtain ⟨w₁, hbetween, -, hs₁, hafter⟩ := hrest.split
  have ho := hbefore.ordered
  rw [hm₁] at hs₁
  obtain ⟨k₁, hk₁, hend⟩ := hs₁.of_finished
  obtain ⟨k, hk, rfl, hkey, hholds⟩ | ⟨f, hf⟩ := hs₀.of_getsTree ho.sound hm₀
  · obtain ⟨fan, hfan⟩ | ⟨o, -, hdone⟩ := hbetween.asking hk
    · obtain rfl := Stage.asking.inj (Option.some.inj (hk₁.symm.trans hfan))
      rw [← hkey]
      obtain ⟨hends, hlapsed⟩ | ⟨hnone, hholds⟩ := hbetween.ticket (ho.step hs₀) hholds
      · obtain ⟨hcurrent, -⟩ | ⟨-, hstale⟩ := hend
        · cases hcurrent.symm.trans hlapsed.not_current
        · exact .inr ⟨hends, hafter.done hstale⟩
      · obtain ⟨-, n, hits, hcommitted⟩ | ⟨hcurrent, -⟩ := hend
        · exact .inl ⟨hnone, n, hits, hafter.done hcommitted⟩
        · cases hcurrent.symm.trans hholds.isCurrent
    · cases hk₁.symm.trans hdone
  · cases hk₁.symm.trans (hbetween.done hf)

/-! ### Traces of a pass -/

/-- A pass that begins stores a tree at most, or shows again what was found. -/
theorem Analyzer.Begins.spares {a a' : Analyzer} {s : Stage} (h : a.Begins r a' s) :
    a.Spares r.key a' ∨ s = .done r (.outcome .cached) := by
  cases h with
  | cached => exact .inr rfl
  | @parsed d t lines token tree _ hplan _ =>
    obtain ⟨hkey, hholds⟩ := Registry.holds_of_plan hplan
    exact .inl ⟨a.treeless_storeTree t d tree, .inr ⟨t, d, tree, hkey, hholds.isCurrent, rfl⟩⟩
  | _ => exact .inl (.refl a _)

/-- No step of a pass that ends without results changes more than the tree of its document. -/
theorem History.spares (h : History start ms w) (hp : w.passes[p]? = some (.done r o))
    (ho : o.Fruitless) (hm : m ∈ ms) (he : m.event.pass? = some p) :
    ∃ w', m.world.step? m.event = some w' ∧ m.world.analyzer.Spares r.key w'.analyzer := by
  obtain ⟨before, after, rfl⟩ := List.append_of_mem hm
  obtain ⟨w', -, hstep, hs, hafter⟩ := h.split
  refine ⟨w', hstep, ?_⟩
  have hstays : ∀ {r' o'}, w'.passes[p]? = some (.done r' o') → r' = r ∧ o' = o := fun hd => by
    cases hp.symm.trans (hafter.done hd)
    exact ⟨rfl, rfl⟩
  obtain ⟨w₀, e⟩ := m
  cases hs with
  | @begun i r' a s hi hb =>
    cases he
    have hself : (w₀.passes.set p s)[p]? = some s := World.getElem?_set_self hi s
    obtain rfl : r' = r := by
      obtain ⟨k, rfl, rfl⟩ | ⟨o', rfl, -⟩ := hb.stage
      · obtain ⟨fan, hfan⟩ | ⟨o', -, hdone⟩ := hafter.asking hself
        · cases hp.symm.trans hfan
        · cases hp.symm.trans hdone
          rfl
      · exact (hstays hself).1
    obtain hspares | rfl := hb.spares
    · exact hspares
    · obtain ⟨-, rfl⟩ := hstays hself
      cases ho
  | committed hi =>
    cases he
    obtain ⟨-, rfl⟩ := hstays (World.getElem?_set_self hi _)
    cases ho
  | asked | skipped | answered | dropped | stale => exact .refl _ _
  | _ => cases he

/-- A pass that ends without results changes nothing but, at most, the tree that is kept for its
document, and does not call the sink.  A pass keeps its results exactly if it got a tree and was
finished after that, while its document was neither edited nor closed; if the document was, the pass
is stale.  A pass that gets a tree does not end in another way, but by breaking off. -/
theorem endings_of_passes (h : History (.reading R c) ms w)
    (hp : w.passes[p]? = some (.done r o)) :
    (o.Fruitless → ∀ m ∈ ms, m.event.pass? = some p → ∃ w', m.world.step? m.event = some w' ∧
      m.world.analyzer.Spares r.key w'.analyzer) ∧
    ((∃ candidates hits, o = .outcome (.committed candidates hits)) ↔
      ∃ between, WorksThrough ms p r between ∧ ∀ m ∈ between, ¬ m.Ends r.key) ∧
    (o = .outcome .stale ↔
      ∃ between, WorksThrough ms p r between ∧ ∃ m ∈ between, m.Ends r.key) ∧
    ((∃ m ∈ ms, m.GetsTree p r) → o.Finished ∨ ∃ f, o = .broken f) := by
  refine ⟨fun ho m hm he => h.spares hp ho hm he, ⟨?_, ?_⟩, ⟨?_, ?_⟩, ?_⟩
  · rintro ⟨n, hits, rfl⟩
    obtain ⟨between, hworks⟩ := h.exists_worksThrough (.committed n hits) hp
    obtain ⟨hnone, -⟩ | ⟨-, hstale⟩ := hworks.ending h
    · exact ⟨between, hworks, hnone⟩
    · cases hp.symm.trans hstale
  · rintro ⟨between, hworks, hnone⟩
    obtain ⟨-, n, hits, hcommitted⟩ | ⟨⟨m, hm, hends⟩, -⟩ := hworks.ending h
    · cases hp.symm.trans hcommitted
      exact ⟨n, hits, rfl⟩
    · exact absurd hends (hnone m hm)
  · rintro rfl
    obtain ⟨between, hworks⟩ := h.exists_worksThrough .stale hp
    obtain ⟨-, n, hits, hcommitted⟩ | ⟨hends, -⟩ := hworks.ending h
    · cases hp.symm.trans hcommitted
    · exact ⟨between, hworks, hends⟩
  · rintro ⟨between, hworks, m, hm, hends⟩
    obtain ⟨hnone, -⟩ | ⟨-, hstale⟩ := hworks.ending h
    · exact absurd hends (hnone m hm)
    · cases hp.symm.trans hstale
      rfl
  · rintro ⟨m, hm, htree⟩
    obtain ⟨before, after, rfl⟩ := List.append_of_mem hm
    obtain ⟨w', hbefore, -, hs, hafter⟩ := h.split
    obtain ⟨k, hk, -⟩ | ⟨f, hf⟩ := hs.of_getsTree hbefore.ordered.sound htree
    · obtain ⟨fan, hfan⟩ | ⟨o', ho, hdone⟩ := hafter.asking hk
      · cases hp.symm.trans hfan
      · cases hp.symm.trans hdone
        exact .inl ho
    · cases hp.symm.trans (hafter.done hf)
      exact .inr ⟨f, rfl⟩

end

/-! ### An edit under way -/

/-- How a pass ended, if it has ended. -/
def Stage.ending? : Stage → Option Ending
  | .done _ o => some o
  | _ => none

theorem Stage.eq_done_of_ending? {s : Option Stage} {o : Ending}
    (h : s.bind Stage.ending? = some o) : ∃ r, s = some (.done r o) := by
  obtain ⟨s, rfl, h⟩ := Option.bind_eq_some_iff.1 h
  cases s with
  | done r o' => exact ⟨r, by rw [Option.some.inj h]⟩
  | _ => cases h

open TwoLines in
/-- The document is edited while a pass over the first line asks; a pass over the second line begins
after that. -/
def TwoLines.edit : List Event :=
  [.opened document.key, .spawned ⟨document, lineAt 0⟩, .spawned ⟨document, lineAt 1⟩, .begun 0,
    .edited document.key, .begun 1, .skipped 0, .asked 1, .finished 0,
    .answered 1 0 (some signature), .finished 1]

open TwoLines in
/-- The first pass is stale and leaves no trace, the second one keeps its results. -/
theorem endings_of_edited_lines :
    History start (start.moments edit) (edit.foldl World.step start) ∧
      (∃ r, (edit.foldl World.step start).passes[0]? = some (.done r (.outcome .stale)) ∧
        (∃ between, WorksThrough (start.moments edit) 0 r between ∧ ∃ m ∈ between, m.Ends r.key) ∧
        ∀ m ∈ start.moments edit, m.event.pass? = some 0 → ∃ w', m.world.step? m.event = some w' ∧
          m.world.analyzer.Spares r.key w'.analyzer) ∧
      ∃ r, (edit.foldl World.step start).passes[1]? =
          some (.done r (.outcome (.committed 1 1))) ∧
        ∃ between, WorksThrough (start.moments edit) 1 r between ∧
          ∀ m ∈ between, ¬ m.Ends r.key := by
  have hrun : History start (start.moments edit) (edit.foldl World.step start) :=
    World.history_moments (by decide +kernel)
  have hstale : (edit.foldl World.step start).passes[0]?.bind Stage.ending? =
      some (.outcome .stale) := by
    decide +kernel
  have hcommitted : (edit.foldl World.step start).passes[1]?.bind Stage.ending? =
      some (.outcome (.committed 1 1)) := by
    decide +kernel
  obtain ⟨r, hr⟩ := Stage.eq_done_of_ending? hstale
  obtain ⟨r', hr'⟩ := Stage.eq_done_of_ending? hcommitted
  obtain ⟨hspares, -, hworks, -⟩ := endings_of_passes hrun hr
  obtain ⟨-, hworks', -, -⟩ := endings_of_passes hrun hr'
  exact ⟨hrun, ⟨r, hr, hworks.1 rfl, hspares .stale⟩, r', hr', hworks'.1 ⟨1, 1, rfl⟩⟩

end AnySpans.Passes
