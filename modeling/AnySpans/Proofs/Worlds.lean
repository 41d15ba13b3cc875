import AnySpans.Passes.World
import AnySpans.Proofs.Sessions
import Mathlib.Data.List.Induction

/-!
# Steps of a world

`World.Steps` lists what a step of a world can be, with what was so before it and what is so after
it; `Analyzer.Begins` does so for the beginning of a pass.  A `History` is a run of a world with the
moments it went through.  In every history the registry is sound, and the ticket of a pass that waits
for answers is current exactly as long as the pass is not cancelled (`World.Ordered`).
-/

namespace AnySpans.Passes

open AnySpans.Documents AnySpans.Lines AnySpans.Settings AnySpans.Syntax AnySpans.Text

/-- A pass was finished, with no question left open: it kept its results, or it was stale. -/
inductive Ending.Finished : Ending → Prop
  | committed (candidates hits : Nat) : Finished (.outcome (.committed candidates hits))
  | stale : Finished (.outcome .stale)

/-! ### Analyzers -/

namespace Analyzer

variable (a : Analyzer)

@[simp] theorem registry_render (k : Key) : (a.render k).registry = a.registry := by
  unfold render
  split <;> rfl

@[simp] theorem readers_render (k : Key) : (a.render k).readers = a.readers := by
  unfold render
  split <;> rfl

theorem registry_foldl_render (ks : List Key) : (ks.foldl render a).registry = a.registry := by
  induction ks generalizing a with
  | nil => rfl
  | cons k ks ih => exact (ih _).trans (a.registry_render k)

theorem readers_foldl_render (ks : List Key) : (ks.foldl render a).readers = a.readers := by
  induction ks generalizing a with
  | nil => rfl
  | cons k ks ih => exact (ih _).trans (a.readers_render k)

@[simp] theorem registry_setConfig (c : Config) : (a.setConfig c).registry = a.registry :=
  registry_foldl_render _ _

@[simp] theorem readers_setConfig (c : Config) : (a.setConfig c).readers = a.readers :=
  readers_foldl_render _ _

@[simp] theorem registry_setErrors (k : Key) (errors : List Range) :
    (a.setErrors k errors).registry = a.registry.setErrors k errors := by
  unfold setErrors
  split
  · exact registry_render _ k
  · rename_i h
    have hnone : a.registry.sessions.get? k = none := by
      rwa [Registry.isOpen, Bool.not_eq_true, Option.isSome_eq_false_iff,
        Option.isNone_iff_eq_none] at h
    rw [Registry.setErrors, Table.modify, hnone]

@[simp] theorem readers_setErrors (k : Key) (errors : List Range) :
    (a.setErrors k errors).readers = a.readers := by
  unfold setErrors
  split
  · exact readers_render _ k
  · rfl

/-- What can come of an analyzer and of a pass over some lines when the pass begins. -/
inductive Begins (a : Analyzer) (r : Request) : Analyzer → Stage → Prop
  | unsupported : Dialect.detect r.document.language r.document.text.toList = none →
    Begins a r a (.done r (.outcome .unsupported))
  | closed {d : Dialect} : Dialect.detect r.document.language r.document.text.toList = some d →
    a.registry.plan r.key r.visible d = .closed → Begins a r a (.done r (.outcome .closed))
  | cached {d : Dialect} : Dialect.detect r.document.language r.document.text.toList = some d →
    a.registry.plan r.key r.visible d = .cached →
    Begins a r (a.render r.key) (.done r (.outcome .cached))
  | reused {d : Dialect} {t : Ticket} {lines : IntervalSet} {token : Token} {tree : Tree} :
    Dialect.detect r.document.language r.document.text.toList = some d →
    a.registry.plan r.key r.visible d = .work t lines token (some tree) →
    Begins a r a (a.beginAsking r t token lines tree)
  | refused {d : Dialect} {t : Ticket} {lines : IntervalSet} {token : Token} {e : SyntaxError} :
    Dialect.detect r.document.language r.document.text.toList = some d →
    a.registry.plan r.key r.visible d = .work t lines token none →
    a.readers.parse d r.document.text.toList = .error e → Begins a r a (.done r (.refused e))
  | parsed {d : Dialect} {t : Ticket} {lines : IntervalSet} {token : Token} {tree : Tree} :
    Dialect.detect r.document.language r.document.text.toList = some d →
    a.registry.plan r.key r.visible d = .work t lines token none →
    a.readers.parse d r.document.text.toList = .ok tree →
    Begins a r { a with registry := a.registry.storeTree t d tree }
      (a.beginAsking r t token lines tree)

theorem beginPass_begins (r : Request) : a.Begins r (a.beginPass r).1 (a.beginPass r).2 := by
  unfold beginPass
  split
  · exact .unsupported ‹_›
  · split
    · exact .closed ‹_› ‹_›
    · exact .cached ‹_› ‹_›
    · exact .reused ‹_› ‹_›
    · split
      · exact .refused ‹_› ‹_› ‹_›
      · exact .parsed ‹_› ‹_› ‹_›

/-- A pass that has a tree asks, or broke off at a node with impossible lines. -/
theorem beginAsking_cases (r : Request) (t : Ticket) (token : Token) (lines : IntervalSet)
    (tree : Tree) :
    (∃ f, a.beginAsking r t token lines tree = .done r (.broken f)) ∨
      ∃ cs, questions tree lines = .ok cs ∧ a.beginAsking r t token lines tree = .asking
        ⟨r, t, token, cs.length, a.config.queryTimeout, .start a.config.maxQueries cs⟩ := by
  unfold beginAsking
  split
  · exact .inl ⟨_, rfl⟩
  · exact .inr ⟨_, ‹_›, rfl⟩

theorem beginAsking_of_questions (r : Request) (t : Ticket) (token : Token) {lines : IntervalSet}
    {tree : Tree} {cs : List Candidate} (h : questions tree lines = .ok cs) :
    a.beginAsking r t token lines tree = .asking
      ⟨r, t, token, cs.length, a.config.queryTimeout, .start a.config.maxQueries cs⟩ := by
  rw [beginAsking, h]

variable {a} {a' : Analyzer} {r : Request} {s : Stage}

theorem Begins.readers (h : a.Begins r a' s) : a'.readers = a.readers := by
  cases h with
  | cached => exact a.readers_render r.key
  | _ => rfl

/-- What beginning a pass does to the registry is at most to keep a tree. -/
theorem Begins.change (h : a.Begins r a' s) : ∃ k, a.registry.Change k false a'.registry := by
  cases h with
  | cached => exact ⟨r.key, a.registry_render r.key ▸ .same⟩
  | parsed => exact ⟨_, a.registry.storeTree_change _ _ _⟩
  | _ => exact ⟨r.key, .same⟩

/-- A pass that has begun asks, or has ended without being finished. -/
theorem Begins.stage (h : a.Begins r a' s) :
    (∃ k, s = .asking k ∧ k.request = r) ∨ ∃ o, s = .done r o ∧ ¬ o.Finished := by
  cases h with
  | reused | parsed =>
    obtain ⟨f, hf⟩ | ⟨cs, -, hcs⟩ := a.beginAsking_cases _ _ _ _ _
    · exact .inr ⟨_, hf, nofun⟩
    · exact .inl ⟨_, hcs, rfl⟩
  | _ => exact .inr ⟨_, rfl, nofun⟩

/-- A pass that asks was planned, with a tree that was kept or is kept now. -/
theorem Begins.exists_plan {k : Work} (h : a.Begins r a' (.asking k)) :
    ∃ d t lines token kept tree,
      Dialect.detect r.document.language r.document.text.toList = some d ∧
      a.registry.plan r.key r.visible d = .work t lines token kept ∧
      a.beginAsking r t token lines tree = .asking k ∧
      (kept = some tree ∧ a' = a ∨
        kept = none ∧ a.readers.parse d r.document.text.toList = .ok tree ∧
        a' = { a with registry := a.registry.storeTree t d tree }) := by
  generalize hs : Stage.asking k = s at h
  cases h with
  | reused hd hplan => exact ⟨_, _, _, _, _, _, hd, hplan, rfl, .inl ⟨rfl, rfl⟩⟩
  | parsed hd hplan hparse =>
    exact ⟨_, _, _, _, _, _, hd, hplan, rfl, .inr ⟨rfl, hparse, rfl⟩⟩
  | _ => cases hs

theorem beginAsking_eq_asking {t : Ticket} {token : Token} {lines : IntervalSet} {tree : Tree}
    {k : Work} (h : a.beginAsking r t token lines tree = .asking k) :
    k.request = r ∧ k.ticket = t ∧ k.token = token := by
  obtain ⟨f, hf⟩ | ⟨cs, -, hcs⟩ := a.beginAsking_cases r t token lines tree
  · rw [hf] at h
    cases h
  · rw [hcs] at h
    cases h
    exact ⟨rfl, rfl, rfl⟩

/-- A pass that asks has the ticket and the token of the present generation of its document. -/
theorem Begins.holds {k : Work} (h : a.Begins r a' (.asking k)) :
    k.request = r ∧ k.ticket.key = r.key ∧ a.registry.Holds k.ticket k.token := by
  obtain ⟨d, t, lines, token, kept, tree, -, hplan, hk, -⟩ := h.exists_plan
  obtain ⟨hr, rfl, rfl⟩ := beginAsking_eq_asking hk
  exact ⟨hr, Registry.holds_of_plan hplan⟩

/-- What beginning a pass does to the registry leaves the ticket the pass has got. -/
theorem Begins.holds_after {k : Work} (h : a.Begins r a' (.asking k)) (hr : a.registry.Sound) :
    a'.registry.Holds k.ticket k.token := by
  obtain ⟨-, -, hholds⟩ := h.holds
  obtain ⟨j, hchange⟩ := h.change
  have := hholds.change hr hchange
  rwa [Bool.and_false] at this

end Analyzer

/-! ### Worlds -/

/-- Whether an event opens, closes or edits a document. -/
def Event.disturbs (j : Key) : Event → Bool
  | .opened i | .closed i | .edited i => i == j
  | _ => false

namespace World

variable {w w' : World} {e : Event} {p : Nat} {k : Work} {s : Stage}

theorem asking?_eq_some_iff : w.asking? p = some k ↔ w.passes[p]? = some (.asking k) := by
  unfold asking?
  split
  · rename_i k' h
    rw [h]
    simp
  · rename_i h
    exact ⟨fun h' => (nomatch h'), fun h' => absurd h' (h k)⟩

theorem getElem?_set_stage {s' : Stage} (h : w.passes[p]? = some s) (i : Nat) :
    (w.passes.set p s')[i]? = if p = i then some s' else w.passes[i]? := by
  rw [List.getElem?_set, if_pos (List.getElem?_eq_some_iff.1 h).1]

/-- After one pass has come to another stage, a pass is that one or where it was. -/
theorem stage_of_set {s₀ s' : Stage} {i : Nat} (hi : w.passes[i]? = some s₀)
    (hp : (w.passes.set i s')[p]? = some s) : i = p ∧ s' = s ∨ w.passes[p]? = some s := by
  rw [getElem?_set_stage hi] at hp
  split at hp
  · exact .inl ⟨‹_›, Option.some.inj hp⟩
  · exact .inr hp

/-- After one more pass was called for, a pass is that one or where it was. -/
theorem stage_of_append {r : Request} (hp : (w.passes ++ [.ready r])[p]? = some s) :
    w.passes[p]? = some s ∨ s = .ready r ∧ w.passes[p]? = none := by
  rw [List.getElem?_append] at hp
  split at hp
  · exact .inl hp
  · rename_i hlt
    rw [List.getElem?_singleton] at hp
    split at hp
    · exact .inr ⟨(Option.some.inj hp).symm, List.getElem?_eq_none (Nat.not_lt.1 hlt)⟩
    · cases hp

/-- What a step of a world can be. -/
inductive Steps (w : World) : Event → World → Prop
  | opened (j : Key) : Steps w (.opened j) (w.change fun a => a.open' j)
  | closed (j : Key) : Steps w (.closed j) (w.change fun a => a.close j)
  | edited (j : Key) : Steps w (.edited j) (w.change fun a => a.edit j)
  | errors (j : Key) (ranges : List Range) :
    Steps w (.errors j ranges) (w.change fun a => a.setErrors j ranges)
  | configured (c : Config) : Steps w (.configured c) (w.change fun a => a.setConfig c)
  | spawned (r : Request) : Steps w (.spawned r) { w with passes := w.passes ++ [.ready r] }
  | begun {p : Nat} {r : Request} {a : Analyzer} {s : Stage} : w.passes[p]? = some (.ready r) →
    w.analyzer.Begins r a s → Steps w (.begun p) ({ w with analyzer := a }.setStage p s)
  | asked {p : Nat} {k : Work} {q : Query} {fan : Fanout} : w.passes[p]? = some (.asking k) →
    w.isCancelled k = false → k.fan.ask? = some (q, fan) →
    Steps w (.asked p) { w.setStage p (.asking { k with fan }) with
      asked := ⟨p, k.request.document, q.candidate.position⟩ :: w.asked }
  | skipped {p : Nat} {k : Work} {fan : Fanout} : w.passes[p]? = some (.asking k) →
    w.isCancelled k = true → k.fan.skip? = some fan →
    Steps w (.skipped p) (w.setStage p (.asking { k with fan }))
  | answered {p number : Nat} {answer : Answer} {k : Work} {fan : Fanout} :
    w.passes[p]? = some (.asking k) → w.isCancelled k = false →
    k.fan.answer? number answer = some fan →
    Steps w (.answered p number answer) (w.setStage p (.asking { k with fan }))
  | dropped {p number : Nat} {k : Work} {fan : Fanout} : w.passes[p]? = some (.asking k) →
    w.isCancelled k = true → k.fan.answer? number none = some fan →
    Steps w (.dropped p number) (w.setStage p (.asking { k with fan }))
  | stale {p : Nat} {k : Work} : w.passes[p]? = some (.asking k) → k.fan.isDone = true →
    w.analyzer.registry.commit? k.ticket k.request.visible k.fan.hits = none →
    Steps w (.finished p) (w.setStage p (.done k.request (.outcome .stale)))
  | committed {p : Nat} {k : Work} {registry : Registry} : w.passes[p]? = some (.asking k) →
    k.fan.isDone = true →
    w.analyzer.registry.commit? k.ticket k.request.visible k.fan.hits = some registry →
    Steps w (.finished p)
      ({ w with analyzer := { w.analyzer with registry }.render k.request.key }.setStage p
        (.done k.request (.outcome (.committed k.candidates k.fan.hits.length))))

theorem steps_of_step? (h : w.step? e = some w') : w.Steps e w' := by
  cases e with
  | opened j => exact Option.some.inj h ▸ .opened j
  | closed j => exact Option.some.inj h ▸ .closed j
  | edited j => exact Option.some.inj h ▸ .edited j
  | errors j ranges => exact Option.some.inj h ▸ .errors j ranges
  | configured c => exact Option.some.inj h ▸ .configured c
  | spawned r => exact Option.some.inj h ▸ .spawned r
  | begun p =>
    simp only [step?] at h
    split at h
    · rename_i r hr
      exact Option.some.inj h ▸ .begun hr (w.analyzer.beginPass_begins r)
    · cases h
  | asked p =>
    obtain ⟨k, hk, h⟩ := Option.bind_eq_some_iff.1 h
    rw [asking?_eq_some_iff] at hk
    split at h
    · cases h
    · rename_i hc
      obtain ⟨⟨q, fan⟩, hf, h⟩ := Option.bind_eq_some_iff.1 h
      exact Option.some.inj h ▸ .asked hk (Bool.eq_false_iff.2 hc) hf
  | skipped p =>
    obtain ⟨k, hk, h⟩ := Option.bind_eq_some_iff.1 h
    rw [asking?_eq_some_iff] at hk
    split at h
    · cases h
    · rename_i hc
      obtain ⟨fan, hf, h⟩ := Option.bind_eq_some_iff.1 h
      exact Option.some.inj h ▸ .skipped hk (by simpa using hc) hf
  | answered p number answer =>
    obtain ⟨k, hk, h⟩ := Option.bind_eq_some_iff.1 h
    rw [asking?_eq_some_iff] at hk
    split at h
    · cases h
    · rename_i hc
      obtain ⟨fan, hf, h⟩ := Option.bind_eq_some_iff.1 h
      exact Option.some.inj h ▸ .answered hk (Bool.eq_false_iff.2 hc) hf
  | dropped p number =>
    obtain ⟨k, hk, h⟩ := Option.bind_eq_some_iff.1 h
    rw [asking?_eq_some_iff] at hk
    split at h
    · cases h
    · rename_i hc
      obtain ⟨fan, hf, h⟩ := Option.bind_eq_some_iff.1 h
      exact Option.some.inj h ▸ .dropped hk (by simpa using hc) hf
  | finished p =>
    obtain ⟨k, hk, h⟩ := Option.bind_eq_some_iff.1 h
    rw [asking?_eq_some_iff] at hk
    split at h
    · cases h
    · rename_i hd
      have hdone : k.fan.isDone = true := by simpa using hd
      cases hc : w.analyzer.registry.commit? k.ticket k.request.visible k.fan.hits with
      | none =>
        simp only [Analyzer.finishPass, hc] at h
        exact Option.some.inj h ▸ .stale hk hdone hc
      | some registry =>
        simp only [Analyzer.finishPass, hc] at h
        exact Option.some.inj h ▸ .committed hk hdone hc

theorem Steps.readers (h : w.Steps e w') : w'.analyzer.readers = w.analyzer.readers := by
  cases h with
  | errors j ranges => exact w.analyzer.readers_setErrors j ranges
  | configured c => exact w.analyzer.readers_setConfig c
  | begun _ hb => exact hb.readers
  | committed => exact Analyzer.readers_render _ _
  | _ => rfl

theorem Steps.asked_subset (h : w.Steps e w') : ∀ a ∈ w.asked, a ∈ w'.asked := by
  cases h with
  | asked => exact fun a ha => List.mem_cons_of_mem _ ha
  | _ => exact fun _ ha => ha

/-! ### Operations of steps -/

/-- The operation an event performs on the registry of a world. -/
inductive Performs (w : World) : Event → Operation → Prop
  | opened (j : Key) : Performs w (.opened j) (.open' j)
  | closed (j : Key) : Performs w (.closed j) (.close j)
  | edited (j : Key) : Performs w (.edited j) (.edit j)
  | errors (j : Key) (ranges : List Range) : Performs w (.errors j ranges) (.setErrors j ranges)
  | begun {p : Nat} {r : Request} {d : Dialect} {t : Ticket} {lines : IntervalSet} {token : Token}
    {tree : Tree} : w.passes[p]? = some (.ready r) →
    Dialect.detect r.document.language r.document.text.toList = some d →
    w.analyzer.registry.plan r.key r.visible d = .work t lines token none →
    w.analyzer.readers.parse d r.document.text.toList = .ok tree →
    Performs w (.begun p) (.storeTree t d tree)
  | finished {p : Nat} {k : Work} : w.passes[p]? = some (.asking k) → k.fan.isDone = true →
    w.analyzer.registry.isCurrent k.ticket = true →
    Performs w (.finished p) (.commit k.ticket k.request.visible k.fan.hits)

/-- A step of a world leaves its registry alone or performs one operation on it. -/
theorem Steps.registry (h : w.Steps e w') : w'.analyzer.registry = w.analyzer.registry ∨
    ∃ op, w.Performs e op ∧ w'.analyzer.registry = w.analyzer.registry.perform op := by
  cases h with
  | opened j => exact .inr ⟨_, .opened j, rfl⟩
  | closed j => exact .inr ⟨_, .closed j, rfl⟩
  | edited j => exact .inr ⟨_, .edited j, rfl⟩
  | errors j ranges => exact .inr ⟨_, .errors j ranges, w.analyzer.registry_setErrors j ranges⟩
  | configured c => exact .inl (w.analyzer.registry_setConfig c)
  | begun hp hb =>
    cases hb with
    | cached => exact .inl (w.analyzer.registry_render _)
    | parsed hd hplan hparse => exact .inr ⟨_, .begun hp hd hplan hparse, rfl⟩
    | _ => exact .inl rfl
  | @committed p k registry hp hdone hc =>
    have hcurrent : w.analyzer.registry.isCurrent k.ticket = true := by
      rw [← Registry.commit?_isSome k.request.visible k.fan.hits, hc]
      rfl
    refine .inr ⟨_, .finished hp hdone hcurrent, ?_⟩
    show (Analyzer.render _ _).registry = _
    rw [Analyzer.registry_render, Registry.perform, Registry.commit, hc]
    rfl
  | _ => exact .inl rfl

theorem Steps.change (h : w.Steps e w') :
    ∃ j ends, w.analyzer.registry.Change j ends w'.analyzer.registry := by
  obtain hsame | ⟨op, -, hop⟩ := h.registry
  · exact ⟨⟨""⟩, false, hsame ▸ .same⟩
  · exact ⟨op.key, _, hop ▸ Registry.perform_change _ op⟩

/-! ### Tickets of passes -/

/-- A pass that waits for answers has a ticket for its document that holds or lapsed. -/
def TicketOf (w : World) (k : Work) : Prop :=
  k.ticket.key = k.request.key ∧
    (w.analyzer.registry.Holds k.ticket k.token ∨ w.analyzer.registry.Lapsed k.ticket k.token)

/-- Tickets and tokens are in order. -/
structure Ordered (w : World) : Prop where
  sound : w.analyzer.registry.Sound
  tickets : ∀ (p : Nat) (k : Work), w.passes[p]? = some (.asking k) → w.TicketOf k

theorem ordered_reading (R : Readers) (c : Config) : (reading R c).Ordered where
  sound := Registry.sound_empty
  tickets _ _ h := by cases h

theorem TicketOf.step (h : w.TicketOf k) (hr : w.analyzer.registry.Sound) (hs : w.Steps e w') :
    w'.TicketOf k := by
  obtain ⟨j, ends, hc⟩ := hs.change
  refine ⟨h.1, ?_⟩
  obtain hh | hl := h.2
  · have := hh.change hr hc
    split at this
    · exact .inr this
    · exact .inl this
  · exact .inr (hl.change hc)

/-- What a step of a world does to the questions of a pass that goes on waiting for answers. -/
inductive Moves (w w' : World) (p : Nat) (k : Work) : Event → Fanout → Prop
  | same {e : Event} : Moves w w' p k e k.fan
  | asked {q : Query} {fan : Fanout} : w.isCancelled k = false → k.fan.ask? = some (q, fan) →
    ⟨p, k.request.document, q.candidate.position⟩ ∈ w'.asked → Moves w w' p k (.asked p) fan
  | skipped {fan : Fanout} : w.isCancelled k = true → k.fan.skip? = some fan →
    Moves w w' p k (.skipped p) fan
  | answered {number : Nat} {answer : Answer} {fan : Fanout} : w.isCancelled k = false →
    k.fan.answer? number answer = some fan → Moves w w' p k (.answered p number answer) fan
  | dropped {number : Nat} {fan : Fanout} : w.isCancelled k = true →
    k.fan.answer? number none = some fan → Moves w w' p k (.dropped p number) fan

/-- What a pass that waits for answers after a step was before: it has just begun, or it was waiting
already. -/
theorem Steps.asking_before (h : w.Steps e w') (hk : w'.passes[p]? = some (.asking k)) :
    (e = .begun p ∧ ∃ r, w.passes[p]? = some (.ready r) ∧
      w.analyzer.Begins r w'.analyzer (.asking k)) ∨
      ∃ k', w.passes[p]? = some (.asking k') ∧ k = { k' with fan := k.fan } ∧
        w.Moves w' p k' e k.fan := by
  have hsame : w.passes[p]? = some (.asking k) → ∃ k', w.passes[p]? = some (.asking k') ∧
      k = { k' with fan := k.fan } ∧ w.Moves w' p k' e k.fan :=
    fun hk => ⟨k, hk, rfl, .same⟩
  cases h with
  | spawned r =>
    obtain hk | ⟨hs, -⟩ := stage_of_append hk
    · exact .inr (hsame hk)
    · cases hs
  | begun hi hb =>
    obtain ⟨rfl, rfl⟩ | hk := stage_of_set hi hk
    · exact .inl ⟨rfl, _, hi, hb⟩
    · exact .inr (hsame hk)
  | asked hi hc hf =>
    obtain ⟨rfl, hs⟩ | hk := stage_of_set hi hk
    · cases hs
      exact .inr ⟨_, hi, rfl, .asked hc hf List.mem_cons_self⟩
    · exact .inr (hsame hk)
  | skipped hi hc hf =>
    obtain ⟨rfl, hs⟩ | hk := stage_of_set hi hk
    · cases hs
      exact .inr ⟨_, hi, rfl, .skipped hc hf⟩
    · exact .inr (hsame hk)
  | answered hi hc hf =>
    obtain ⟨rfl, hs⟩ | hk := stage_of_set hi hk
    · cases hs
      exact .inr ⟨_, hi, rfl, .answered hc hf⟩
    · exact .inr (hsame hk)
  | dropped hi hc hf =>
    obtain ⟨rfl, hs⟩ | hk := stage_of_set hi hk
    · cases hs
      exact .inr ⟨_, hi, rfl, .dropped hc hf⟩
    · exact .inr (hsame hk)
  | stale hi | committed hi =>
    obtain ⟨-, hs⟩ | hk := stage_of_set hi hk
    · cases hs
    · exact .inr (hsame hk)
  | _ => exact .inr (hsame hk)

/-- A pass that has not begun after a step had not begun before it, or is called for by it. -/
theorem Steps.ready_before (h : w.Steps e w') {r : Request}
    (hr : w'.passes[p]? = some (.ready r)) :
    w.passes[p]? = some (.ready r) ∨ e = .spawned r ∧ w.passes[p]? = none := by
  cases h with
  | spawned r' =>
    obtain hr | ⟨hs, hnone⟩ := stage_of_append hr
    · exact .inl hr
    · cases hs
      exact .inr ⟨rfl, hnone⟩
  | begun hi hb =>
    obtain ⟨-, rfl⟩ | hr := stage_of_set hi hr
    · obtain ⟨k, hs, -⟩ | ⟨o, hs, -⟩ := hb.stage <;> cases hs
    · exact .inl hr
  | asked hi | skipped hi | answered hi | dropped hi | stale hi | committed hi =>
    obtain ⟨-, hs⟩ | hr := stage_of_set hi hr
    · cases hs
    · exact .inl hr
  | _ => exact .inl hr

theorem Ordered.step (h : w.Ordered) (hs : w.Steps e w') : w'.Ordered := by
  obtain ⟨j, ends, hc⟩ := hs.change
  refine ⟨h.sound.change hc, fun p k hk => ?_⟩
  obtain ⟨-, r, hp, hb⟩ | ⟨k', hk', hsame, -⟩ := hs.asking_before hk
  · -- the registry keeps a tree at most, so the ticket it gave out still holds
    obtain ⟨hr, hkey, -⟩ := hb.holds
    exact ⟨hkey.trans (congrArg Request.key hr).symm, .inl (hb.holds_after h.sound)⟩
  · have := (h.tickets p k' hk').step h.sound hs
    rw [hsame]
    exact this

/-- The ticket of a pass that waits for answers is current exactly if the pass is not cancelled. -/
theorem Ordered.isCurrent_eq (h : w.Ordered) (hk : w.passes[p]? = some (.asking k)) :
    w.analyzer.registry.isCurrent k.ticket = !w.isCancelled k := by
  obtain hh | hl := (h.tickets p k hk).2
  · rw [hh.isCurrent, isCancelled, hh.not_cancelled h.sound]
    rfl
  · rw [hl.not_current, isCancelled, hl.cancelled]
    rfl

/-- A ticket that is current after a step was so before. -/
theorem TicketOf.isCurrent_of_step (h : w.TicketOf k) (hs : w.Steps e w')
    (hc : w'.analyzer.registry.isCurrent k.ticket = true) :
    w.analyzer.registry.isCurrent k.ticket = true := by
  obtain ⟨j, ends, hchange⟩ := hs.change
  obtain hh | hl := h.2
  · exact hh.isCurrent
  · rw [(hl.change hchange).not_current] at hc
    cases hc

/-! ### Passes after a step -/

/-- What can become of a pass by a step of a world. -/
inductive Becomes (w w' : World) : Stage → Stage → Prop
  | same {s : Stage} : Becomes w w' s s
  | begun {r : Request} {s : Stage} : w.analyzer.Begins r w'.analyzer s →
    Becomes w w' (.ready r) s
  | moved {k : Work} {fan : Fanout} : Becomes w w' (.asking k) (.asking { k with fan })
  | stale {k : Work} :
    w.analyzer.registry.commit? k.ticket k.request.visible k.fan.hits = none →
    Becomes w w' (.asking k) (.done k.request (.outcome .stale))
  | committed {k : Work} {candidates hits : Nat} :
    w.analyzer.registry.commit? k.ticket k.request.visible k.fan.hits =
      some w'.analyzer.registry →
    Becomes w w' (.asking k) (.done k.request (.outcome (.committed candidates hits)))

theorem Steps.becomes (h : w.Steps e w') (hp : w.passes[p]? = some s) :
    ∃ s', w'.passes[p]? = some s' ∧ w.Becomes w' s s' := by
  have hset : ∀ {i : Nat} {s₀ s₁ : Stage}, w.passes[i]? = some s₀ → w.Becomes w' s₀ s₁ →
      ∃ s', (w.passes.set i s₁)[p]? = some s' ∧ w.Becomes w' s s' := by
    intro i s₀ s₁ hi hb
    rw [getElem?_set_stage hi]
    split
    · rename_i hip
      rw [hip, hp] at hi
      cases hi
      exact ⟨s₁, rfl, hb⟩
    · exact ⟨s, hp, .same⟩
  cases h with
  | spawned r =>
    have hlt := (List.getElem?_eq_some_iff.1 hp).1
    exact ⟨s, (List.getElem?_append_left hlt).trans hp, .same⟩
  | begun hi hb => exact hset hi (.begun hb)
  | asked hi => exact hset hi .moved
  | skipped hi => exact hset hi .moved
  | answered hi => exact hset hi .moved
  | dropped hi => exact hset hi .moved
  | stale hi _ hc => exact hset hi (.stale hc)
  | @committed i k registry hi _ hc =>
    refine hset hi (.committed (hc.trans (congrArg some ?_)))
    exact (Analyzer.registry_render { w.analyzer with registry } k.request.key).symm
  | _ => exact ⟨s, hp, .same⟩

/-! ### Documents a step leaves alone -/

/-- In a document that is neither opened nor closed nor edited, the session goes on and lines stay
checked. -/
theorem Steps.session_before (hs : w.Steps e w') {j : Key} (he : e.disturbs j = false)
    {s : Session} (h : w'.analyzer.registry.session? j = some s) :
    ∃ s₀, w.analyzer.registry.session? j = some s₀ ∧ ∀ line ∈ s₀.checked, line ∈ s.checked := by
  obtain hsame | ⟨op, hop, hreg⟩ := hs.registry
  · exact ⟨s, hsame ▸ h, fun _ hline => hline⟩
  rw [hreg] at h
  obtain ⟨-, ⟨i, hi, hrenews⟩, -⟩ | ⟨s₀, h₀, hgoes⟩ := Registry.session?_perform h
  · obtain rfl | rfl := hrenews
    all_goals
      cases hop
      exact absurd hi (Bool.eq_false_iff.1 he)
  · exact ⟨s₀, h₀, hgoes.checked_subset⟩

/-- Tickets of a document that is neither closed nor edited go on to hold. -/
theorem Steps.holds (hs : w.Steps e w') (hr : w.analyzer.registry.Sound) {t : Ticket}
    {token : Token} (he : e.disturbs t.key = false) (h : w.analyzer.registry.Holds t token) :
    w'.analyzer.registry.Holds t token := by
  obtain hsame | ⟨op, hop, hreg⟩ := hs.registry
  · rwa [hsame]
  have := h.change hr (Registry.perform_change _ op)
  split at this
  · rename_i hends
    obtain ⟨hkey, hends⟩ := Bool.and_eq_true_iff.1 hends
    cases hop with
    | closed i => exact absurd hkey (Bool.eq_false_iff.1 he)
    | edited i => exact absurd hkey (Bool.eq_false_iff.1 he)
    | _ => cases hends
  · rwa [hreg]

end World

/-! ### Histories -/

/-- A world at the moment of an event. -/
structure Moment where
  world : World
  event : Event

/-- A run of a world with the moments it went through, the first first. -/
inductive History (start : World) : List Moment → World → Prop
  | start : History start [] start
  | step {ms : List Moment} {w w' : World} {e : Event} : History start ms w →
    w.step? e = some w' → History start (ms ++ [⟨w, e⟩]) w'

theorem World.Ordered.history {start w : World} {ms : List Moment} (ho : start.Ordered)
    (h : History start ms w) : w.Ordered := by
  induction h with
  | start => exact ho
  | step _ hs ih => exact ih.step (World.steps_of_step? hs)

namespace History

variable {R : Readers} {c : Config} {w w' start : World} {ms ms' : List Moment} {m : Moment}

theorem ordered (h : History (.reading R c) ms w) : w.Ordered :=
  (World.ordered_reading R c).history h

theorem readers (h : History (.reading R c) ms w) : w.analyzer.readers = R := by
  induction h with
  | start => rfl
  | step _ hs ih => exact (World.steps_of_step? hs).readers.trans ih

theorem of_concat (h : History start (ms ++ [m]) w) :
    History start ms m.world ∧ m.world.step? m.event = some w := by
  generalize hl : ms ++ [m] = l at h
  cases h with
  | start => exact absurd hl (List.append_ne_nil_of_right_ne_nil ms (List.cons_ne_nil m []))
  | step h hs =>
    obtain ⟨rfl, heq⟩ := List.append_inj' hl rfl
    obtain rfl := List.head_eq_of_cons_eq heq
    exact ⟨h, hs⟩

theorem of_append (h : History start (ms ++ ms') w) :
    ∃ w', History start ms w' ∧ History w' ms' w := by
  induction ms' using List.reverseRecOn generalizing w with
  | nil => exact ⟨w, ms.append_nil ▸ h, .start⟩
  | append_singleton ms' m ih =>
    rw [← List.append_assoc] at h
    obtain ⟨h, hs⟩ := h.of_concat
    obtain ⟨w', hbefore, hafter⟩ := ih h
    exact ⟨w', hbefore, hafter.step hs⟩

/-- A history goes to each of its moments, makes the step of the moment and goes on. -/
theorem split (h : History start (ms ++ m :: ms') w) : ∃ w', History start ms m.world ∧
    m.world.step? m.event = some w' ∧ m.world.Steps m.event w' ∧ History w' ms' w := by
  rw [List.append_cons] at h
  obtain ⟨w', hbefore, hafter⟩ := h.of_append
  obtain ⟨hbefore, hs⟩ := hbefore.of_concat
  exact ⟨w', hbefore, hs, World.steps_of_step? hs, hafter⟩

end History

/-! ### Runs by a list of events -/

namespace World

/-- The moments of a world that goes through some events. -/
def moments : World → List Event → List Moment
  | _, [] => []
  | w, e :: es => ⟨w, e⟩ :: (w.step e).moments es

/-- Whether each of some events is possible when it comes. -/
def possible : World → List Event → Bool
  | _, [] => true
  | w, e :: es => (w.step? e).isSome && (w.step e).possible es

variable {w : World} {e : Event}

theorem step?_eq_step (h : (w.step? e).isSome = true) : w.step? e = some (w.step e) := by
  obtain ⟨w', hw'⟩ := Option.isSome_iff_exists.1 h
  rw [step, hw', Option.getD_some]

theorem history_moments {es : List Event} (h : w.possible es = true) :
    History w (w.moments es) (es.foldl step w) := by
  have hgo : ∀ (es : List Event) (ms : List Moment) (w' : World), History w ms w' →
      w'.possible es = true → History w (ms ++ w'.moments es) (es.foldl step w') := by
    intro es
    induction es with
    | nil =>
      intro ms w' h _
      rwa [moments, List.append_nil]
    | cons e es ih =>
      intro ms w' h hp
      obtain ⟨he, hes⟩ := Bool.and_eq_true_iff.1 hp
      have := ih _ _ (h.step (step?_eq_step he)) hes
      rwa [List.append_assoc, List.singleton_append] at this
  exact hgo es [] w .start h

/-- A pass that has not begun at some moment had not begun at the start or was called for. -/
theorem ready_of_mem_moments {es : List Event} {m : Moment} (hm : m ∈ w.moments es) {p : Nat}
    {r : Request} (hr : m.world.passes[p]? = some (.ready r)) :
    w.passes[p]? = some (.ready r) ∨ .spawned r ∈ es := by
  induction es generalizing w with
  | nil => cases hm
  | cons e es ih =>
    obtain rfl | hm := List.mem_cons.1 hm
    · exact .inl hr
    · obtain hready | hspawned := ih hm
      · cases he : w.step? e with
        | none =>
          rw [step, he] at hready
          exact .inl hready
        | some w' =>
          rw [step, he] at hready
          obtain hready | ⟨rfl, -⟩ := (steps_of_step? he).ready_before hready
          · exact .inl hready
          · exact .inr List.mem_cons_self
      · exact .inr (List.mem_cons_of_mem e hspawned)

theorem map_event_moments (w : World) (es : List Event) : (w.moments es).map Moment.event = es := by
  induction es generalizing w with
  | nil => rfl
  | cons e es ih => exact congrArg (e :: ·) (ih _)

theorem event_of_mem_moments {es : List Event} {m : Moment} (hm : m ∈ w.moments es) :
    m.event ∈ es := w.map_event_moments es ▸ List.mem_map_of_mem hm

end World

end AnySpans.Passes
