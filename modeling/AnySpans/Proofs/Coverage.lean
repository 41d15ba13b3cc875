import AnySpans.Proofs.Fanout
import AnySpans.Proofs.Reading
import AnySpans.Proofs.Sessions
import AnySpans.Proofs.Worlds

/-!
# Coverage

However passes, edits, closings and openings follow one another, what was found in a document is
exactly what the identifiers on its checked lines have of type `any` (`coverage_sound_complete`).  A
pass marks all of its lines as checked although it asks about those only that were not checked when
it was planned.  That is sound because, within a generation, lines stay checked: each line of the pass
is one it asks about or is checked already (`Pursued`).
-/

namespace AnySpans.Passes

open AnySpans.Documents AnySpans.Lines AnySpans.Settings AnySpans.Signature AnySpans.Syntax
  AnySpans.Text

/-! ### What there is to find -/

/-- The documents of a world and the answers of the type server on them, by the number of the session
and the generation. -/
structure View where
  document : (session generation : Nat) → Snapshot
  answer : (session generation : Nat) → Position → Answer

namespace View

variable (v : View) (R : Readers) (s : Session)

/-- The identifiers of the document of a session, as it is in the present generation. -/
def candidates : List Candidate := R.candidates (v.document s.number s.generation)

/-- What stands at a position of the document of a session is of type `any`. -/
def IsAny (p : Position) : Prop := (v.answer s.number s.generation p).any isAnyType = true

/-- A range is that of an identifier and touches some lines. -/
def Wanted (lines : IntervalSet) (r : Range) : Prop :=
  ∃ c ∈ v.candidates R s, c.range = r ∧ r.touches lines = true

end View

/-- What happens at a moment agrees with a view: a pass that is planned carries the document of its
session and generation, and a question has the answer that belongs there. -/
structure Moment.Follows (m : Moment) (v : View) : Prop where
  planned : ∀ p r d t lines token tree, m.event = .begun p →
    m.world.passes[p]? = some (.ready r) →
    Dialect.detect r.document.language r.document.text.toList = some d →
    m.world.analyzer.registry.plan r.key r.visible d = .work t lines token tree →
    r.document.language = (v.document t.session t.generation).language ∧
      r.document.text = (v.document t.session t.generation).text
  answered : ∀ p number a k q, m.event = .answered p number a →
    m.world.passes[p]? = some (.asking k) → k.fan.running? number = some q →
    a = v.answer k.ticket.session k.ticket.generation q.candidate.position

/-- At a moment a pass keeps its results in a session of a document. -/
structure Moment.Commits (m : Moment) (p : Nat) (k : Work) (j : Key) (s : Session) : Prop where
  event : m.event = .finished p
  asking : m.world.passes[p]? = some (.asking k)
  current : m.world.analyzer.registry.isCurrent k.ticket = true
  key : (k.ticket.key == j) = true
  session : k.ticket.session = s.number
  generation : k.ticket.generation = s.generation

/-- What was found in a session of a document is what there is to find on its checked lines, and was
asked about and found by passes that kept their results in it. -/
structure Covered (R : Readers) (v : View) (ms : List Moment) (j : Key) (s : Session) : Prop where
  tree : ∀ t, s.tree = some t →
    R.parse t.dialect (v.document s.number s.generation).text.toList = .ok t.tree
  bounded : ∀ line ∈ s.checked, line < limit
  asked : ∀ c ∈ v.candidates R s, c.range.touches s.checked = true →
    ∃ m ∈ ms, ∃ p k, m.Commits p k j s ∧ ⟨p, k.request.document, c.position⟩ ∈ m.world.asked
  complete : ∀ c ∈ v.candidates R s, c.range.touches s.checked = true → v.IsAny s c.position →
    c.range ∈ s.anys
  sound : ∀ r ∈ s.anys, v.Wanted R s s.checked r ∧ v.IsAny s r.start
  found : ∀ r ∈ s.anys, ∃ m ∈ ms, ∃ p k, m.Commits p k j s ∧ r ∈ k.fan.hits

/-- A pass asks about some lines of a session's document, and each of its lines is one of them or
checked. -/
def Pursued (R : Readers) (v : View) (w : World) (p : Nat) (k : Work) (s : Session) : Prop :=
  ∃ lines : IntervalSet, (∀ line ∈ lines, line ∈ k.request.visible ∧ line < limit) ∧
    (∀ line ∈ k.request.visible, line < limit → line ∈ lines ∨ line ∈ s.checked) ∧
    k.fan.Tracks (v.Wanted R s lines) (v.answer s.number s.generation)
      fun at' => ⟨p, k.request.document, at'⟩ ∈ w.asked

/-! ### Sessions -/

section

variable {R : Readers} {v : View} {ms ms' : List Moment} {j : Key} {s s₀ : Session}
  {lines : IntervalSet} {r : Range}

theorem touches_iff_or {a b c : IntervalSet} (h : ∀ line, line ∈ c ↔ line ∈ a ∨ line ∈ b) :
    r.touches c = true ↔ r.touches a = true ∨ r.touches b = true := by
  simp only [Range.touches_iff, h, or_and_right, exists_or]

theorem candidates_congr (h : s₀.Alike s) : v.candidates R s₀ = v.candidates R s := by
  rw [View.candidates, View.candidates, h.number, h.generation]

theorem isAny_congr (h : s₀.Alike s) (at' : Position) : v.IsAny s₀ at' ↔ v.IsAny s at' := by
  rw [View.IsAny, View.IsAny, h.number, h.generation]

theorem wanted_congr (h : s₀.Alike s) : v.Wanted R s₀ lines r ↔ v.Wanted R s lines r := by
  rw [View.Wanted, View.Wanted, candidates_congr h]

theorem Moment.Commits.congr {m : Moment} {p : Nat} {k : Work} (h : m.Commits p k j s₀)
    (ha : s₀.Alike s) : m.Commits p k j s :=
  ⟨h.event, h.asking, h.current, h.key, h.session.trans ha.number, h.generation.trans ha.generation⟩

theorem covered_of_blank (h : s.Blank) : Covered R v ms j s := by
  have hchecked : ∀ line, line ∉ s.checked := by
    rw [Session.checked_of_blank h]
    exact IntervalSet.not_mem_empty
  have htouches : ∀ {r : Range}, r.touches s.checked ≠ true := fun ht => by
    obtain ⟨line, hline, -⟩ := Range.touches_iff.1 ht
    exact hchecked line hline
  have hanys : ∀ r, r ∉ s.anys := by
    rw [Session.anys_of_blank h]
    exact fun _ => List.not_mem_nil
  refine ⟨fun t ht => ?_, fun line hline => absurd hline (hchecked line),
    fun _ _ ht => absurd ht htouches, fun _ _ ht => absurd ht htouches,
    fun r hr => absurd hr (hanys r), fun r hr => absurd hr (hanys r)⟩
  rw [h.tree] at ht
  cases ht

theorem Covered.append (h : Covered R v ms j s) (ms' : List Moment) :
    Covered R v (ms ++ ms') j s where
  tree := h.tree
  bounded := h.bounded
  asked c hc ht := by
    obtain ⟨m, hm, hrest⟩ := h.asked c hc ht
    exact ⟨m, List.mem_append_left _ hm, hrest⟩
  complete := h.complete
  sound := h.sound
  found r hr := by
    obtain ⟨m, hm, hrest⟩ := h.found r hr
    exact ⟨m, List.mem_append_left _ hm, hrest⟩

/-- A pass that asked about all of its lines that were not checked may mark all of them. -/
theorem Covered.commit {w : World} {p : Nat} {k : Work} (h : Covered R v ms j s)
    (hp : Pursued R v w p k s) (hdone : k.fan.isDone = true)
    (hm : Moment.Commits ⟨w, .finished p⟩ p k j s) :
    Covered R v (ms ++ [⟨w, .finished p⟩]) j (s.withResults k.request.visible k.fan.hits) := by
  obtain ⟨lines, hlines, hvisible, htracks⟩ := hp
  have halike : s.Alike (s.withResults k.request.visible k.fan.hits) := ⟨rfl, rfl⟩
  have hchecked : ∀ line, line ∈ (s.withResults k.request.visible k.fan.hits).checked ↔
      line ∈ s.checked ∨ line ∈ lines := by
    intro line
    rw [Session.mem_checked_withResults]
    constructor
    · rintro (hline | ⟨hline, hlt⟩)
      · exact .inl hline
      · exact (hvisible line hline hlt).symm
    · rintro (hline | hline)
      · exact .inl hline
      · exact .inr (hlines line hline)
  have hlast : (⟨w, .finished p⟩ : Moment) ∈ ms ++ [⟨w, .finished p⟩] :=
    List.mem_append_right _ (List.mem_singleton_self _)
  refine ⟨h.tree, fun line hline => ?_, fun c hc ht => ?_, fun c hc ht hany => ?_,
    fun r hr => ?_, fun r hr => ?_⟩
  · obtain hline | hline := (hchecked line).1 hline
    · exact h.bounded line hline
    · exact (hlines line hline).2
  · obtain ht | ht := (touches_iff_or hchecked).1 ht
    · obtain ⟨m, hm', p', k', hcommit, hasked⟩ := h.asked c hc ht
      exact ⟨m, List.mem_append_left _ hm', p', k', hcommit.congr halike, hasked⟩
    · exact ⟨_, hlast, p, k, hm.congr halike, htracks.asked_of_isDone hdone ⟨c, hc, rfl, ht⟩⟩
  · rw [Session.anys_withResults]
    obtain ht | ht := (touches_iff_or hchecked).1 ht
    · exact List.mem_append_left _ (h.complete c hc ht hany)
    · exact List.mem_append_right _ ((htracks.mem_hits_iff hdone _).2 ⟨⟨c, hc, rfl, ht⟩, hany⟩)
  · rw [Session.anys_withResults] at hr
    obtain hr | hr := List.mem_append.1 hr
    · obtain ⟨⟨c, hc, hrange, ht⟩, hany⟩ := h.sound r hr
      exact ⟨⟨c, hc, hrange, (touches_iff_or hchecked).2 (.inl ht)⟩, hany⟩
    · obtain ⟨⟨c, hc, hrange, ht⟩, hany⟩ := (htracks.mem_hits_iff hdone r).1 hr
      exact ⟨⟨c, hc, hrange, (touches_iff_or hchecked).2 (.inr ht)⟩, hany⟩
  · rw [Session.anys_withResults] at hr
    obtain hr | hr := List.mem_append.1 hr
    · obtain ⟨m, hm', p', k', hcommit, hhit⟩ := h.found r hr
      exact ⟨m, List.mem_append_left _ hm', p', k', hcommit.congr halike, hhit⟩
    · exact ⟨_, hlast, p, k, hm.congr halike, hr⟩

/-- What was found stays covered in a session that has found the same. -/
theorem Covered.congr (h : Covered R v ms j s₀) (ha : s₀.Alike s) (hc : s.checked = s₀.checked)
    (hany : s.anys = s₀.anys) (htree : ∀ t, s.tree = some t →
      R.parse t.dialect (v.document s.number s.generation).text.toList = .ok t.tree) :
    Covered R v ms j s where
  tree := htree
  bounded := hc ▸ h.bounded
  asked c hmem ht := by
    rw [← candidates_congr ha] at hmem
    obtain ⟨m, hm, p, k, hcommit, hasked⟩ := h.asked c hmem (hc ▸ ht)
    exact ⟨m, hm, p, k, hcommit.congr ha, hasked⟩
  complete c hmem ht hc' := by
    rw [← candidates_congr ha] at hmem
    exact hany ▸ h.complete c hmem (hc ▸ ht) ((isAny_congr ha _).2 hc')
  sound r hr := by
    obtain ⟨hw, hr⟩ := h.sound r (hany ▸ hr)
    exact ⟨(wanted_congr ha).1 (hc ▸ hw), (isAny_congr ha _).1 hr⟩
  found r hr := by
    obtain ⟨m, hm, p, k, hcommit, hhit⟩ := h.found r (hany ▸ hr)
    exact ⟨m, hm, p, k, hcommit.congr ha, hhit⟩

/-! ### Passes -/

theorem Pursued.congr {w w' : World} {p : Nat} {k : Work} (h : Pursued R v w p k s₀)
    (ha : s₀.Alike s) (hc : ∀ line ∈ s₀.checked, line ∈ s.checked)
    (hasked : ∀ a ∈ w.asked, a ∈ w'.asked) : Pursued R v w' p k s := by
  obtain ⟨lines, hlines, hvisible, htracks⟩ := h
  refine ⟨lines, hlines, fun line hline hlt => (hvisible line hline hlt).imp_right (hc line), ?_⟩
  have hwanted : v.Wanted R s₀ lines = v.Wanted R s lines :=
    funext fun r => propext (wanted_congr ha)
  rw [← hwanted, ← ha.number, ← ha.generation]
  exact htracks.mono fun at' h => hasked _ h

/-- What a step does to the questions of a pass that is not cancelled keeps it on its way. -/
theorem Pursued.moves {w w' : World} {p : Nat} {k : Work} {e : Event} {fan : Fanout}
    (h : Pursued R v w p k s) (hm : w.Moves w' p k e fan) (hlive : w.isCancelled k = false)
    (hasked : ∀ a ∈ w.asked, a ∈ w'.asked)
    (hanswer : ∀ number a q, e = .answered p number a → k.fan.running? number = some q →
      a = v.answer s.number s.generation q.candidate.position) :
    Pursued R v w' p { k with fan } s := by
  obtain ⟨lines, hlines, hvisible, htracks⟩ := h
  refine ⟨lines, hlines, hvisible, ?_⟩
  cases hm with
  | same => exact htracks.mono fun at' h => hasked _ h
  | asked _ hask hmem => exact htracks.ask? hask (fun at' h => hasked _ h) hmem
  | @answered number a fan _ hfan =>
    obtain ⟨q, hq, -⟩ := Option.map_eq_some_iff.1 hfan
    obtain ⟨fan', hfan', htracks'⟩ := htracks.answer? hq
    rw [← hanswer number a q rfl hq, hfan] at hfan'
    cases hfan'
    exact htracks'.mono fun at' h => hasked _ h
  | skipped hc _ =>
    rw [hlive] at hc
    cases hc
  | dropped hc _ =>
    rw [hlive] at hc
    cases hc

/-- A pass that has the tree of its document begins with the wanted ranges on its lines. -/
theorem pursued_of_beginAsking {w : World} {p : Nat} {a : Analyzer} {req : Request} {d : Dialect}
    {t : Ticket} {token : Token} {tree : Tree} {k : Work} (hR : R.Nested)
    (hd : Dialect.detect req.document.language req.document.text.toList = some d)
    (hlanguage : req.document.language = (v.document s.number s.generation).language)
    (htext : req.document.text = (v.document s.number s.generation).text)
    (htree : R.parse d (v.document s.number s.generation).text.toList = .ok tree)
    (hk : a.beginAsking req t token (s.uncovered req.visible) tree = .asking k) :
    Pursued R v w p k s := by
  obtain ⟨f, hf⟩ | ⟨cs, hcs, hk'⟩ := a.beginAsking_cases req t token (s.uncovered req.visible) tree
  · rw [hf] at hk
    cases hk
  rw [hk'] at hk
  cases hk
  obtain ⟨o, ho, hl⟩ := Readers.parse_shaped hR htree
  obtain ⟨cs', all, hcs', hall, hranges⟩ := exists_questions_iff ho hl (s.uncovered req.visible)
  obtain rfl : cs' = cs := Except.ok.inj (hcs'.symm.trans hcs)
  have hcandidates : v.candidates R s = all.candidates := by
    rw [hlanguage, htext] at hd
    exact Readers.candidates_eq hd htree hall
  refine ⟨s.uncovered req.visible, fun line hline => (Session.mem_uncovered_iff.1 hline).1,
    fun line hline hlt => ?_, Fanout.Tracks.start _ fun r => ?_⟩
  · by_cases hc : line ∈ s.checked
    · exact .inr hc
    · exact .inl (Session.mem_uncovered_iff.2 ⟨⟨hline, hlt⟩, hc⟩)
  · rw [View.Wanted, hcandidates]
    exact hranges r

end

/-! ### Worlds -/

/-- All that was found in the documents of a world is covered by its moments so far, and its passes
are on their way. -/
structure Accounted (R : Readers) (v : View) (ms : List Moment) (w : World) : Prop where
  readers : w.analyzer.readers = R
  ordered : w.Ordered
  sessions : ∀ j s, w.analyzer.registry.session? j = some s → Covered R v ms j s
  passes : ∀ (p : Nat) (k : Work) s, w.passes[p]? = some (.asking k) →
    w.analyzer.registry.session? k.ticket.key = some s → s.admits k.ticket = true →
    Pursued R v w p k s

section

variable {R : Readers} {v : View} {ms : List Moment} {w w' : World} {e : Event}

theorem accounted_reading (c : Config) : Accounted R v [] (.reading R c) where
  readers := rfl
  ordered := World.ordered_reading R c
  sessions _ _ h := by cases h
  passes _ _ _ h := by cases h

/-- Within a generation a step leaves lines checked. -/
theorem checked_subset_of_steps (hs : w.Steps e w') {j : Key} {s₀ s : Session}
    (h₀ : w.analyzer.registry.session? j = some s₀) (h : w'.analyzer.registry.session? j = some s)
    (ha : s₀.Alike s) : ∀ line ∈ s₀.checked, line ∈ s.checked := by
  obtain hsame | ⟨op, -, hop⟩ := hs.registry
  · rw [hsame, h₀] at h
    cases h
    exact fun _ hline => hline
  · rw [hop] at h
    obtain ⟨-, -, hnew⟩ | ⟨s₁, h₁, hgoes⟩ := Registry.session?_perform h
    · exact absurd ha (hnew s₀ h₀)
    · obtain rfl : s₁ = s₀ := Option.some.inj (h₁.symm.trans h₀)
      exact hgoes.checked_subset

theorem Accounted.covered_step (h : Accounted R v ms w) (hs : w.Steps e w')
    (hf : Moment.Follows ⟨w, e⟩ v) {j : Key} {s : Session}
    (hj : w'.analyzer.registry.session? j = some s) : Covered R v (ms ++ [⟨w, e⟩]) j s := by
  obtain hsame | ⟨op, hop, hreg⟩ := hs.registry
  · rw [hsame] at hj
    exact (h.sessions j s hj).append _
  rw [hreg] at hj
  obtain ⟨hblank, -⟩ | ⟨s₀, h₀, hgoes⟩ := Registry.session?_perform hj
  · exact covered_of_blank hblank
  have hcovered := h.sessions j s₀ h₀
  cases hgoes with
  | same => exact hcovered.append _
  | judged => exact (hcovered.append _).congr ⟨rfl, rfl⟩ rfl rfl hcovered.tree
  | @stored t d tree hkey hadmits =>
    refine (hcovered.append _).congr ⟨rfl, rfl⟩ rfl rfl ?_
    rintro _ ⟨⟩
    cases hop with
    | begun hp hd hplan hparse =>
      obtain ⟨hn, hg⟩ := Registry.admits_iff.1 hadmits
      obtain ⟨-, htext⟩ := hf.planned _ _ _ _ _ _ _ rfl hp hd hplan
      rw [h.readers, htext] at hparse
      show R.parse d (v.document s₀.number s₀.generation).text.toList = .ok tree
      rw [hn, hg]
      exact hparse
  | committed hkey hadmits =>
    cases hop with
    | finished hp hdone hcurrent =>
      obtain ⟨hn, hg⟩ := Registry.admits_iff.1 hadmits
      have hpursued := h.passes _ _ s₀ hp ((Registry.session?_congr hkey).trans h₀) hadmits
      exact hcovered.commit hpursued hdone ⟨rfl, hp, hcurrent, hkey, hn.symm, hg.symm⟩

/-- A pass that has just begun is on its way. -/
theorem Accounted.pursued_begun (h : Accounted R v ms w) (hR : R.Nested) {p : Nat} {r : Request}
    {k : Work} (hs : w.Steps (.begun p) w') (hf : Moment.Follows ⟨w, .begun p⟩ v)
    (hp : w.passes[p]? = some (.ready r)) (hb : w.analyzer.Begins r w'.analyzer (.asking k))
    {s : Session} (hsession : w'.analyzer.registry.session? k.ticket.key = some s)
    (hadmits : s.admits k.ticket = true) : Pursued R v w' p k s := by
  obtain ⟨d, t, lines, token, kept, tree, hd, hplan, hk, htree⟩ := hb.exists_plan
  obtain ⟨hlanguage, htext⟩ := hf.planned p r d t lines token kept rfl hp hd hplan
  obtain ⟨s₀, h₀, rfl, rfl, -, hkept⟩ := Registry.exists_session_of_plan hplan
  obtain ⟨-, hticket, -⟩ := Analyzer.beginAsking_eq_asking hk
  rw [hticket] at hsession hadmits
  have ha : s₀.Alike s := Session.alike_of_admits (Registry.admits_iff.2 ⟨rfl, rfl⟩) hadmits
  have hparse : R.parse d (v.document s₀.number s₀.generation).text.toList = .ok tree := by
    obtain ⟨rfl, -⟩ | ⟨-, hparse, -⟩ := htree
    · obtain ⟨t, ht, rfl⟩ := Option.map_eq_some_iff.1 hkept.symm
      obtain ⟨ht, hmatch⟩ := Option.filter_eq_some_iff.1 ht
      obtain ⟨-, hdialect⟩ := Bool.and_eq_true_iff.1 hmatch
      rw [← beq_iff_eq.1 hdialect]
      exact (h.sessions _ s₀ h₀).tree t ht
    · rwa [h.readers, htext] at hparse
  have hpursued : Pursued R v w p k s₀ := pursued_of_beginAsking hR hd hlanguage htext hparse hk
  exact hpursued.congr ha (checked_subset_of_steps hs h₀ hsession ha) hs.asked_subset

/-- A pass that was waiting for answers goes on on its way. -/
theorem Accounted.pursued_step (h : Accounted R v ms w) (hs : w.Steps e w')
    (hf : Moment.Follows ⟨w, e⟩ v) {p : Nat} {k : Work} {fan : Fanout}
    (hk : w.passes[p]? = some (.asking k)) (hm : w.Moves w' p k e fan) {s : Session}
    (hsession : w'.analyzer.registry.session? k.ticket.key = some s)
    (hadmits : s.admits k.ticket = true) : Pursued R v w' p { k with fan } s := by
  have hcurrent := (h.ordered.tickets p k hk).isCurrent_of_step hs
    (Registry.isCurrent_iff.2 ⟨s, hsession, hadmits⟩)
  obtain ⟨s₀, h₀, hadmits₀⟩ := Registry.isCurrent_iff.1 hcurrent
  have hlive : w.isCancelled k = false := by
    rwa [h.ordered.isCurrent_eq hk, Bool.not_eq_true'] at hcurrent
  obtain ⟨hn, hg⟩ := Registry.admits_iff.1 hadmits₀
  have hmoved := (h.passes p k s₀ hk h₀ hadmits₀).moves hm hlive hs.asked_subset
    fun number a q he hq => by
      rw [hn, hg]
      exact hf.answered p number a k q he hk hq
  have ha : s₀.Alike s := Session.alike_of_admits hadmits₀ hadmits
  exact hmoved.congr ha (checked_subset_of_steps hs h₀ hsession ha) fun _ ha => ha

theorem Accounted.step (h : Accounted R v ms w) (hR : R.Nested) (hs : w.Steps e w')
    (hf : Moment.Follows ⟨w, e⟩ v) : Accounted R v (ms ++ [⟨w, e⟩]) w' where
  readers := hs.readers.trans h.readers
  ordered := h.ordered.step hs
  sessions j s hj := h.covered_step hs hf hj
  passes p k s hk hsession hadmits := by
    obtain ⟨rfl, r, hp, hb⟩ | ⟨k', hk', hsame, hm⟩ := hs.asking_before hk
    · exact h.pursued_begun hR hs hf hp hb hsession hadmits
    · rw [hsame] at hsession hadmits ⊢
      exact h.pursued_step hs hf hk' hm hsession hadmits

theorem History.accounted {c : Config} (hR : R.Nested) (h : History (.reading R c) ms w)
    (hf : ∀ m ∈ ms, m.Follows v) : Accounted R v ms w := by
  induction h with
  | start => exact accounted_reading c
  | step _ hs ih =>
    have ih := ih fun m hm => hf m (List.mem_append_left _ hm)
    exact ih.step hR (World.steps_of_step? hs)
      (hf _ (List.mem_append_right _ (List.mem_singleton_self _)))

/-- Whatever the order of passes, edits, closings and openings: the ranges found in an open document
are those of the identifiers of its whole tree that lie on a checked line and are of type `any`.  The
identifiers on each checked line were asked about by a pass that kept its results in this session and
generation, and each range found is a hit of such a pass. -/
theorem coverage_sound_complete {c : Config} (hR : R.Nested) (h : History (.reading R c) ms w)
    (hf : ∀ m ∈ ms, m.Follows v) {j : Key} {s : Session}
    (hs : w.analyzer.registry.session? j = some s) :
    (∀ r, r ∈ s.anys ↔ ∃ x ∈ v.candidates R s, x.range = r ∧
      (∃ line ∈ s.checked, x.range.start.line ≤ line ∧ line ≤ x.range.stop.line) ∧
      v.IsAny s x.position) ∧
    (∀ line ∈ s.checked, ∀ x ∈ v.candidates R s, x.range.start.line ≤ line →
      line ≤ x.range.stop.line → ∃ m ∈ ms, ∃ p k, m.Commits p k j s ∧
        ⟨p, k.request.document, x.position⟩ ∈ m.world.asked) ∧
    ∀ r ∈ s.anys, ∃ m ∈ ms, ∃ p k, m.Commits p k j s ∧ r ∈ k.fan.hits := by
  have hc := (h.accounted hR hf).sessions j s hs
  have htouches : ∀ {r : Range} {line : Nat}, line ∈ s.checked → r.start.line ≤ line →
      line ≤ r.stop.line → r.touches s.checked = true := fun hline h₁ h₂ =>
    Range.touches_iff.2 ⟨_, hline, ⟨h₁, h₂⟩, hc.bounded _ hline⟩
  refine ⟨fun r => ⟨fun hr => ?_, ?_⟩, fun line hline x hx h₁ h₂ => ?_, hc.found⟩
  · obtain ⟨⟨x, hx, rfl, ht⟩, hany⟩ := hc.sound r hr
    obtain ⟨line, hline, hon, -⟩ := Range.touches_iff.1 ht
    exact ⟨x, hx, rfl, ⟨line, hline, hon⟩, hany⟩
  · rintro ⟨x, hx, rfl, ⟨line, hline, h₁, h₂⟩, hany⟩
    exact hc.complete x hx (htouches hline h₁ h₂) hany
  · exact hc.asked x hx (htouches hline h₁ h₂)

end

/-! ### Two lines -/

/-- Every generation has the same document, and every question the same answer. -/
def View.constant (document : Snapshot) (a : Answer) : View := ⟨fun _ _ => document, fun _ _ _ => a⟩

/-- A run agrees with a constant view if all requests are for its document and all answers are the
same. -/
theorem follows_constant {w : World} {es : List Event} {document : Snapshot} {a : Answer}
    (hw : w.passes = []) (hrequest : ∀ r, .spawned r ∈ es → r.document = document)
    (hanswer : ∀ p number a', .answered p number a' ∈ es → a' = a) :
    ∀ m ∈ w.moments es, m.Follows (.constant document a) := by
  intro m hm
  refine ⟨fun p r d t lines token tree _ hr _ _ => ?_, fun p number a' k q he _ _ => ?_⟩
  · obtain hr | hr := World.ready_of_mem_moments hm hr
    · rw [hw] at hr
      cases hr
    · rw [hrequest r hr]
      exact ⟨rfl, rfl⟩
  · exact hanswer p number a' (he ▸ World.event_of_mem_moments hm)

namespace TwoLines

/-- Two lines that name the same variable. -/
def document : Snapshot := ⟨⟨"/a.ts"⟩, "typescript", "x\nx"⟩

/-- A node without flaws. -/
def node (kind : String) (start stop : Nat) (children : List Concrete) : Concrete :=
  .node ⟨kind, true, false, none, false, ⟨start, stop⟩, []⟩ children

def tree : Concrete :=
  node "program" 0 3 [node "expression_statement" 0 1 [node "identifier" 0 1 []],
    node "expression_statement" 2 3 [node "identifier" 2 3 []]]

def readers : Readers := .only document.text.toList tree

theorem nested_readers : readers.Nested := by
  refine Readers.nested_only _ ?_ (by decide)
  simp [tree, node, Concrete.Nested, Concrete.NestedIn, Concrete.heading, Span.Within]

def signature : String := "let x: any"

/-- One line. -/
def lineAt (n : Nat) : LineRange := ⟨n, n, Nat.le_refl n⟩

/-- The lines up to one. -/
def linesTo (n : Nat) : LineRange := ⟨0, n, Nat.zero_le n⟩

/-- A pass over the first line; then one over the second line and one over both, which is planned
before and ends after it. -/
def events : List Event :=
  [.opened document.key, .spawned ⟨document, lineAt 0⟩, .begun 0, .asked 0,
    .answered 0 0 (some signature), .finished 0, .spawned ⟨document, linesTo 1⟩,
    .spawned ⟨document, lineAt 1⟩, .begun 1, .begun 2, .asked 1, .asked 2,
    .answered 2 0 (some signature), .finished 2, .answered 1 0 (some signature), .finished 1]

def start : World := .reading readers .builtIn

def view : View := .constant document (some signature)

theorem follows : ∀ m ∈ start.moments events, m.Follows view := by
  refine follows_constant rfl (fun r hr => ?_) fun p number a ha => ?_
  · simp only [events, List.mem_cons, List.not_mem_nil, Event.spawned.injEq, reduceCtorEq, false_or,
      or_false] at hr
    obtain rfl | rfl | rfl := hr <;> rfl
  · simp only [events, List.mem_cons, List.not_mem_nil, Event.answered.injEq, reduceCtorEq, false_or,
      or_false] at ha
    obtain ⟨-, -, rfl⟩ | ⟨-, -, rfl⟩ | ⟨-, -, rfl⟩ := ha <;> rfl

end TwoLines

open TwoLines in
/-- After passes that overlap in time and in lines, what was found in two lines is covered; the
second line was found twice. -/
theorem coverage_of_two_lines :
    readers.Nested ∧ History start (start.moments events) (events.foldl World.step start) ∧
      (∀ m ∈ start.moments events, m.Follows view) ∧
      ∃ s, (events.foldl World.step start).analyzer.registry.session? document.key = some s ∧
        s.anys = [⟨⟨0, 0⟩, ⟨0, 1⟩⟩, ⟨⟨1, 0⟩, ⟨1, 1⟩⟩, ⟨⟨1, 0⟩, ⟨1, 1⟩⟩] ∧
        (∀ r, r ∈ s.anys ↔ ∃ x ∈ view.candidates readers s, x.range = r ∧
          (∃ line ∈ s.checked, x.range.start.line ≤ line ∧ line ≤ x.range.stop.line) ∧
          view.IsAny s x.position) ∧
        ∀ r ∈ s.anys, ∃ m ∈ start.moments events, ∃ p k, m.Commits p k document.key s ∧
          r ∈ k.fan.hits := by
  have hrun : History start (start.moments events) (events.foldl World.step start) :=
    World.history_moments (by decide +kernel)
  have hanys : ((events.foldl World.step start).analyzer.registry.session? document.key).map
      Session.anys = some [⟨⟨0, 0⟩, ⟨0, 1⟩⟩, ⟨⟨1, 0⟩, ⟨1, 1⟩⟩, ⟨⟨1, 0⟩, ⟨1, 1⟩⟩] := by
    decide +kernel
  obtain ⟨s, hs, hanys⟩ := Option.map_eq_some_iff.1 hanys
  obtain ⟨hiff, -, hfound⟩ := coverage_sound_complete nested_readers hrun follows hs
  exact ⟨nested_readers, hrun, follows, s, hs, hanys, hiff, hfound⟩

end AnySpans.Passes
