import AnySpans.Proofs.Inquiries
import AnySpans.Proofs.Releases
import AnySpans.Proofs.Surveys
import AnySpans.Proofs.WholeDocuments

/-!
# Looking at a document with an honest server

Between two checks nothing goes on (`Check.Running.Idle`).  Where the server is honest, the errors of a
document that is looked at are those that the server knows (`exists_errorsOf`), and each pass over some
of its lines finds what there is to find on them (`Looks.pass`), so that passes over any windows come
to their end (`Looks.passes`).
-/

namespace AnySpans.Documents.Table

theorem get?_of_keys_eq_nil {β : Type} {t : Table β} (h : t.keys = []) (k : Key) : t.get? k = none := by
  rw [get?, List.map_eq_nil_iff.1 h]
  rfl

end AnySpans.Documents.Table

namespace AnySpans.Server

open AnySpans.Documents AnySpans.Text

/-- The errors that a server knows in a document; none if it does not take the language. -/
def Knowledge.remarks (K : Knowledge) (d : Snapshot) : List Range :=
  ((scriptKind? d.language).bind fun kind => K.errors (d.text, some kind)).getD []

theorem Client.forget_of_known {c : Client} {k : Key} (hopen : c.connection.isOpen = true)
    (hknown : c.texts.contains k = true) :
    (c.forget k).1 = ⟨c.connection.call (.closeFile k.path) false, c.texts.erase k⟩ := by
  rw [forget, if_pos hknown]
  dsimp only
  rw [give, if_pos hopen]
  rfl

theorem Exchange.resting_start {π : Type} {K : Knowledge} {patience last timeout : Nat}
    {inv : π → Nat → Files → List Debt → List UInt8 → Prop} {peer : π}
    (h : inv peer 0 (fun _ => none) [] []) :
    (Exchange.start peer timeout).Resting K patience last inv 0 ⟨[], [], [], []⟩ :=
  ⟨⟨⟨rfl, rfl, rfl, rfl, ⟨[], .new⟩, Nat.zero_le _, rfl, List.nil_prefix, nofun, nofun, nofun,
    .nil, nofun, nofun, nofun⟩, [], h, .short readMessage_nil⟩, rfl, rfl, rfl⟩

end AnySpans.Server

namespace AnySpans.Check.Running

open AnySpans.Documents AnySpans.Lines AnySpans.Passes AnySpans.Server AnySpans.Syntax AnySpans.Text
open AnySpans.Check.Answers (Known)

variable {π : Type} {p : Peer π} {K : Knowledge} {patience last : Nat}
  {inv : π → Nat → Files → List Debt → List UInt8 → Prop} {R : Readers} {d : Snapshot}
  {dialect : Dialect} {tree : Tree} {s s' : Running π} {x : Session} {vs : List LineRange}
  {room n : Nat}

/-- No questions are open at an honest server. -/
def Still (K : Knowledge) (patience last : Nat)
    (inv : π → Nat → Files → List Debt → List UInt8 → Prop) (a : Answers π) (now : Nat)
    (_ : List Posed) : Prop :=
  a.inquiries = [] ∧ patience ≤ a.exchange.timeout ∧
    ∃ g, a.exchange.Resting K patience last inv now g

/-- No document is open and nothing goes on, and answers are waited for as long as the server may
take. -/
structure Idle (R : Readers) (K : Knowledge) (patience last : Nat)
    (inv : π → Nat → Files → List Debt → List UInt8 → Prop) (s : Running π) : Prop
    extends Clear s where
  history : ∃ c ms, History (.reading R c) ms s.world
  quiet : Errand.Quiet (Still K patience last inv) s
  patient : patience ≤ s.world.analyzer.config.queryTimeout

/-- A program begins with nothing going on. -/
theorem idle_start (R : Readers) (K : Knowledge) {c : Settings.Config} {peer : π} {timeout : Nat}
    (hpeer : inv peer 0 (fun _ => none) [] []) (hquery : patience ≤ c.queryTimeout)
    (htimeout : patience ≤ timeout) :
    Idle R K patience last inv (Schedule.start (.reading R c) ⟨.start peer timeout, []⟩) where
  untracked := rfl
  released := Client.released_new
  history := ⟨c, [], .start⟩
  quiet := ⟨⟨nofun, rfl, rfl, htimeout, ⟨[], [], [], []⟩, Exchange.resting_start hpeer⟩, rfl, rfl⟩
  patient := hquery

/-- When a document is opened, nothing was found in it and it has no errors. -/
theorem Idle.opened (h : Idle R K patience last inv s) (d : Snapshot) (dialect : Dialect)
    (tree : Tree) : let s₁ := s.happen (.opened d.key)
    s₁.source = s.source ∧ s₁.world.analyzer.config = s.world.analyzer.config ∧
      Errand.Quiet (Still K patience last inv) s₁ ∧ (∃ c ms, History (.reading R c) ms s₁.world) ∧
      ∃ x, Held R d dialect tree s₁.world x ∧ x.current? = none ∧ x.errors = [] := by
  have hworld : s.happen (.opened d.key) = { s with world := s.world.step (.opened d.key) } :=
    h.quiet.happen rfl
  obtain ⟨c, ms, hw⟩ := h.history
  have hw' := hw.step (World.step?_eq_step (e := .opened d.key) rfl)
  have hnone : s.world.analyzer.registry.isOpen d.key = false := by
    rw [Registry.isOpen, Registry.session?, Table.get?_of_keys_eq_nil h.untracked]
    rfl
  have hsession := Registry.session?_open' hnone
  rw [hworld]
  exact ⟨rfl, rfl, h.quiet.changed rfl, ⟨c, _, hw'⟩, _,
    ⟨hw'.readers, hw'.ordered, hsession, fun _ ht => by cases ht⟩, rfl, rfl⟩

/-! ### The errors of a document -/

/-- The exchange with the server is as it should be when a document is open whose language the server
does not take. -/
theorem known_of_refused (h : Still K patience last inv s.source s.now [])
    (hkind : scriptKind? d.language = none)
    (hroom : s.source.exchange.connection.calls + room ≤ last) :
    Known K patience last inv d [] room s.source s.now [] := by
  obtain ⟨hinquiries, hpatient, g, hresting⟩ := h
  refine ⟨fun _ => none, g, hresting, hpatient, ⟨fun hsome => ?_, fun kind hsome => ?_⟩, hroom, nofun,
    hinquiries, .nil, nofun, nofun⟩
  · rw [hkind] at hsome
    cases hsome
  · cases hkind.symm.trans hsome

/-- The errors of a document that the server does not know yet are asked for, and come. -/
theorem exists_errorsOf (hp : p.Honest K patience last inv) (hpos : 0 < patience)
    (h : Errand.Quiet (Still K patience last inv) s)
    (hnew : s.source.exchange.client.texts.get? d.key = none)
    (hroom : s.source.exchange.connection.calls + 2 + room ≤ last) :
    ∃ s' r n, (∀ fuel, n ≤ fuel → errorsOf p fuel s d = (s', r)) ∧ r.toOption.getD [] = K.remarks d ∧
      s'.world = s.world ∧ Errand.Quiet (Known K patience last inv d [] room) s' := by
  cases hkind : scriptKind? d.language with
  | none =>
    refine ⟨s, .ok [], 0, fun fuel _ => ?_, ?_, rfl, ⟨⟨h.done, h.deadlines, ?_⟩, h.ready, h.items⟩⟩
    · rw [errorsOf, Client.askRemarks, Client.ask_of_refused hkind]
      rfl
    · rw [Knowledge.remarks, hkind]
      rfl
    · exact known_of_refused h.known hkind (by omega)
  | some kind =>
    obtain ⟨hinquiries, hpatient, g, hresting⟩ := h.known
    obtain ⟨client, hask, hknown⟩ :=
      Answers.known_of_askRemarks hresting hpatient hkind hnew hroom
    let number := s.source.exchange.connection.calls + 2
    let e : Expectation :=
      ⟨number, s.now, fun r => (readErrors (.ok r)).toOption = K.errors (d.text, some kind)⟩
    have hover : Errand.Over (Known K patience last inv d [e] room)
        (withExchange s (({ s.source.exchange with client } : Exchange π).await s.now number)) := by
      refine ⟨h.done, h.deadlines, ?_⟩
      rw [← hinquiries] at hknown
      exact hknown
    obtain ⟨s', ⟨n, hstops⟩, hover', hrest, hends, hworld, hitems⟩ :=
      hover.stops (Answers.reliable hp hpos d (Nat.le_refl patience) [e])
        (fun s => (s.source.exchange.connection.outcome? number).isSome) (s.now + patience)
        fun s₁ hover₁ hrest₁ hnot =>
          hover₁.known.due hp hpos hrest₁.work (List.mem_singleton_self e)
            (Option.not_isSome_iff_eq_none.1 (Bool.eq_false_iff.1 hnot))
    obtain ⟨o, ho⟩ := Option.isSome_iff_exists.1 hends
    obtain ⟨r, rfl, hr⟩ := hover'.known.exists_of_outcome? (List.mem_singleton_self e) ho
    replace hr : (readErrors (.ok r)).toOption = K.errors (d.text, some kind) := hr
    refine ⟨s', readErrors (.ok r), n, fun fuel hfuel => ?_, ?_, hworld,
      ⟨⟨hover'.done, hover'.deadlines, hover'.known.unwatch⟩, hrest.ready, ?_⟩⟩
    · rw [errorsOf, hask]
      dsimp only
      rw [hstops fuel fuel hfuel hfuel, ho]
      rfl
    · rw [hr, Knowledge.remarks, hkind]
      rfl
    · rw [hitems, hworld]
      exact h.items

/-! ### Passes -/

/-- All identifiers of a document. -/
def rangesOf (R : Readers) (d : Snapshot) : Finset Range :=
  ((R.candidates d).map Candidate.range).toFinset

/-- Some lines of a document were looked at with `n` questions, and nothing goes on.  There may be
`room` more commands, which are enough for all identifiers. -/
structure Looks (R : Readers) (K : Knowledge) (patience last : Nat)
    (inv : π → Nat → Files → List Debt → List UInt8 → Prop) (d : Snapshot) (dialect : Dialect)
    (tree : Tree) (vs : List LineRange) (s : Running π) (x : Session) (n room : Nat) : Prop where
  quiet : Errand.Quiet (Known K patience last inv d [] room) s
  held : Held R d dialect tree s.world x
  explored : Explored R d (K.answer d) vs x n
  errors : x.errors = K.remarks d
  history : ∃ c ms, History (.reading R c) ms s.world
  enough : (rangesOf R d).card + 1 ≤ n + room
  patient : patience ≤ s.world.analyzer.config.queryTimeout

/-- There may always be one more command. -/
theorem Looks.room_pos (h : Looks R K patience last inv d dialect tree vs s x n room) : 0 < room := by
  have hle : n ≤ (rangesOf R d).card := by
    rw [h.explored.count]
    exact Finset.card_le_card (Finset.filter_subset ..)
  have := h.enough
  omega

/-- The errors of a document are told to the analyzer if they came. -/
def told (s : Running π) (k : Key) : Except Failure (List Range) → Running π
  | .ok ranges => s.happen (.errors k ranges)
  | .error _ => s

/-- When the errors of a new document are told, none of its lines was looked at. -/
theorem exists_looks_of_new (h : Errand.Quiet (Known K patience last inv d [] room) s)
    (held : Held R d dialect tree s.world x) (hnew : x.current? = none) (hx : x.errors = [])
    (hw : ∃ c ms, History (.reading R c) ms s.world) (henough : (rangesOf R d).card + 1 ≤ room)
    (hpatient : patience ≤ s.world.analyzer.config.queryTimeout) {r : Except Failure (List Range)}
    (hr : r.toOption.getD [] = K.remarks d) :
    (told s d.key r).world.analyzer.config = s.world.analyzer.config ∧
      ∃ x', Looks R K patience last inv d dialect tree [] (told s d.key r) x' 0 room := by
  cases r with
  | error f =>
    exact ⟨rfl, x, h, held, explored_of_new hnew, hx.trans hr, hw, by omega, hpatient⟩
  | ok ranges =>
    have hsteps := World.steps_of_step? (w := s.world) (e := .errors d.key ranges) rfl
    have hconfig := hsteps.config
    have hpasses : (s.world.step (.errors d.key ranges)).passes = s.world.passes := rfl
    obtain ⟨x', held', agrees⟩ := held.apart hsteps ⟨rfl, nofun⟩
    have herrors := hsteps.errors_told d.key
    rw [held.session, held'.session] at herrors
    replace herrors : x'.errors = ranges := by
      simpa [Event.errorsOf, BEq.rfl] using herrors
    obtain ⟨c, ms, hw⟩ := hw
    have hhistory := hw.step (World.step?_eq_step (e := .errors d.key ranges) rfl)
    have htold : told s d.key (.ok ranges) = { s with world := s.world.step (.errors d.key ranges) } :=
      h.happen hpasses
    rw [htold]
    exact ⟨hconfig, x', h.changed hpasses, held', explored_of_new (agrees.current?_eq ▸ hnew),
      herrors.trans hr, ⟨c, _, hhistory⟩, by omega, hconfig ▸ hpatient⟩

/-- A pass over some lines comes to its end, and finds what there is on them. -/
theorem Looks.pass (h : Looks R K patience last inv d dialect tree vs s x n room)
    (hp : p.Honest K patience last inv) (hpos : 0 < patience) (hR : R.Nested)
    (hd : Dialect.detect d.language d.text.toList = some dialect)
    (hparse : R.parse dialect d.text.toList = .ok tree)
    (hline : ∀ x ∈ R.candidates d, x.range.start.line = x.range.stop.line) (v : LineRange) :
    ∃ s' x' n' room' o m, (∀ fuel, m ≤ fuel → pass p fuel s ⟨d, v⟩ = (s', some (.outcome o))) ∧
      o ≠ .unsupported ∧ o ≠ .closed ∧
      Looks R K patience last inv d dialect tree (vs ++ [v]) s' x' n' room' ∧
      s'.world.analyzer.config = s.world.analyzer.config := by
  obtain ⟨cs, hasks, hnodup, hranges⟩ := exists_asks hR hd hparse v x
  -- what a pass asks about is not more than there is
  have hlength : n + cs.length ≤ (rangesOf R d).card := by
    have hgained : Gained (K.answer d) v cs x (x.withResults v _) :=
      gained_withResults (.refl x) (.refl _)
    rw [(h.explored.gain hline hnodup hranges hgained).count]
    exact Finset.card_le_card (Finset.filter_subset ..)
  have henough := h.enough
  obtain ⟨room', rfl⟩ := Nat.exists_eq_add_of_le (show cs.length ≤ room by omega)
  obtain ⟨s', x', r, o, ⟨m, hstops⟩, hdone, hsupported, hopen, hquiet, held', hgained, hcontinues⟩ :=
    h.quiet.pass h.held hasks (Answers.reliable hp hpos d h.patient [])
  obtain ⟨c, ms, hw⟩ := h.history
  have herrors := hcontinues.errors d.key
  rw [held'.session, h.held.session] at herrors
  refine ⟨s', x', n + cs.length, room', o, m, fun fuel hfuel => ?_, hsupported, hopen,
    ⟨hquiet, held', h.explored.gain hline hnodup hranges hgained,
      (Option.some.inj herrors).trans h.errors, ⟨c, hcontinues.history hw⟩, by omega,
      hcontinues.config ▸ h.patient⟩, hcontinues.config⟩
  have hrun := hstops fuel fuel hfuel hfuel
  unfold Schedule.hasEnded at hrun
  rw [Running.pass, hrun, hdone]

/-- Passes over windows come to their ends, and find what there is on their lines. -/
theorem Looks.passes (h : Looks R K patience last inv d dialect tree vs s x n room)
    (hp : p.Honest K patience last inv) (hpos : 0 < patience) (hR : R.Nested)
    (hd : Dialect.detect d.language d.text.toList = some dialect)
    (hparse : R.parse dialect d.text.toList = .ok tree)
    (hline : ∀ x ∈ R.candidates d, x.range.start.line = x.range.stop.line) (ws : List LineRange) :
    ∃ s' x' n' room' m, (∀ fuel, m ≤ fuel → passes p fuel d ws s = (s', .ok ())) ∧
      Looks R K patience last inv d dialect tree (vs ++ ws) s' x' n' room' ∧
      s'.world.analyzer.config = s.world.analyzer.config := by
  induction ws generalizing vs s x n room with
  | nil => exact ⟨s, x, n, room, 0, fun _ _ => rfl, (List.append_nil vs).symm ▸ h, rfl⟩
  | cons w ws ih =>
    obtain ⟨s₁, x₁, n₁, room₁, o, m₁, hpass, hsupported, hopen, h₁, hconfig₁⟩ :=
      h.pass hp hpos hR hd hparse hline w
    obtain ⟨s', x', n', room', m, hpasses, h', hconfig⟩ := ih h₁
    refine ⟨s', x', n', room', max m₁ m, fun fuel hfuel => ?_, ?_, hconfig.trans hconfig₁⟩
    · rw [Running.passes, hpass fuel (by omega), ← hpasses fuel (by omega)]
      cases o <;> first | rfl | contradiction
    · rwa [List.append_assoc] at h'

/-! ### The end of a check -/

/-- When the document is taken from the server, no questions are open. -/
theorem still_of_forget {a : Answers π} {now : Nat}
    (h : Known K patience last inv d [] (room + 1) a now []) :
    Still K patience last inv { a with exchange := { a.exchange with
      client := (a.exchange.client.forget d.key).1 } } now [] := by
  obtain ⟨number, g, h⟩ := h
  refine ⟨h.inquiries, h.patient, ?_⟩
  have hopen : a.exchange.client.connection.isOpen = true := h.resting.isOpen
  have hroom := h.room
  by_cases hknown : a.exchange.client.texts.contains d.key = true
  · have hcall := h.resting.call (.closed _ d.key.path) (by omega) (a.exchange.client.texts.erase d.key)
      fun _ (hd : _ ∈ []) => by cases hd
    rw [List.append_nil] at hcall
    rw [Client.forget_of_known hopen hknown]
    exact ⟨_, hcall.1⟩
  · rw [Client.forget, if_neg hknown]
    exact ⟨g, h.resting⟩

/-- When the document is released, nothing goes on. -/
theorem Looks.release (h : Looks R K patience last inv d dialect tree vs s x n (room + 1)) :
    Errand.Quiet (Still K patience last inv) (release s d.key) ∧
      (∃ c ms, History (.reading R c) ms (release s d.key).world) ∧
      (release s d.key).world.analyzer.config = s.world.analyzer.config := by
  have hpasses : (s.world.step (.closed d.key)).passes = s.world.passes := rfl
  have hworld : s.happen (.closed d.key) = { s with world := s.world.step (.closed d.key) } :=
    h.quiet.happen hpasses
  have hchanged := h.quiet.changed hpasses
  obtain ⟨c, ms, hw⟩ := h.history
  have hclosed := hw.step (World.step?_eq_step (e := .closed d.key) rfl)
  rw [Running.release, hworld]
  exact ⟨⟨⟨hchanged.done, hchanged.deadlines, still_of_forget h.quiet.known⟩, hchanged.ready,
    hchanged.items⟩, ⟨c, _, hclosed⟩, rfl⟩

end AnySpans.Check.Running
