import AnySpans.Proofs.Coverage
import Mathlib.Data.Finset.Card

/-!
# Paging

Passes over ranges of lines of a document, one after another, find what there is on all of these
lines, each range once, with one question a range (`paging_finds_union`).  The reason is that a pass
asks about the lines only that were not looked at before (`Gained`), and that an identifier that lies
on one line is not met again on others (`Explored.gain`).  Meanwhile anything may happen to other
documents (`World.Apart`).
-/

namespace AnySpans.Documents

open AnySpans.Lines AnySpans.Syntax AnySpans.Text

/-- Two sessions are in the same generation and have found the same. -/
structure Session.Agrees (s₀ s : Session) : Prop extends s₀.Alike s where
  analysis : s₀.analysis = s.analysis

namespace Session.Agrees

variable {s₀ s s' : Session}

theorem refl (s : Session) : s.Agrees s := ⟨⟨rfl, rfl⟩, rfl⟩

theorem trans (h : s₀.Agrees s) (h' : s.Agrees s') : s₀.Agrees s' :=
  ⟨⟨h.number.trans h'.number, h.generation.trans h'.generation⟩, h.analysis.trans h'.analysis⟩

theorem current?_eq (h : s₀.Agrees s) : s₀.current? = s.current? := by
  rw [current?, current?, h.analysis, h.generation]

theorem checked_eq (h : s₀.Agrees s) : s₀.checked = s.checked := by
  rw [checked, checked, h.current?_eq]

theorem anys_eq (h : s₀.Agrees s) : s₀.anys = s.anys := by
  rw [anys, anys, h.current?_eq]

theorem uncovered_eq (h : s₀.Agrees s) (visible : LineRange) :
    s₀.uncovered visible = s.uncovered visible := by
  rw [uncovered, uncovered, h.current?_eq]

theorem admits_iff (h : s₀.Agrees s) {t : Ticket} : s₀.admits t = true ↔ s.admits t = true := by
  rw [Registry.admits_iff, Registry.admits_iff, h.number, h.generation]

end Session.Agrees

theorem Registry.plan_eq {r : Registry} {k : Key} {s : Session} (h : r.session? k = some s)
    (visible : LineRange) (d : Dialect) : r.plan k visible d =
      if (s.uncovered visible).isEmpty then .cached
      else .work ⟨k, s.number, s.generation⟩ (s.uncovered visible) s.token (s.tree? d) := by
  rw [plan, h]

end AnySpans.Documents

namespace AnySpans.Passes

open AnySpans.Documents AnySpans.Lines AnySpans.Settings AnySpans.Signature AnySpans.Syntax
  AnySpans.Text

/-! ### Events apart from a document -/

/-- The pass an event is a step of. -/
def Event.pass? : Event → Option Nat
  | .begun p | .asked p | .skipped p | .finished p => some p
  | .answered p _ _ | .dropped p _ => some p
  | _ => none

/-- Whether an event closes or edits a document. -/
def Event.ends (j : Key) : Event → Bool
  | .closed i | .edited i => i == j
  | _ => false

namespace World

variable {w w' : World} {e : Event} {j : Key} {p : Nat} {st : Stage} {s : Session}

/-- A pass does not work on a document: it is over another one, or is cancelled, or has ended. -/
def Foreign (w : World) (j : Key) : Stage → Prop
  | .ready r => (r.key == j) = false
  | .asking k => (k.request.key == j) = false ∨ w.isCancelled k = true
  | .done _ _ => True

/-- An event neither closes nor edits a document, nor is it a step of a pass that works on it. -/
structure Apart (w : World) (j : Key) (e : Event) : Prop where
  ends : e.ends j = false
  pass : ∀ p st, e.pass? = some p → w.passes[p]? = some st → w.Foreign j st

/-- The number of questions about a document so far. -/
def queries (w : World) (j : Key) : Nat := w.asked.countP fun a => a.document.key == j

/-- An event apart from a document changes at most the errors of its session. -/
theorem Steps.session_of_apart (hs : w.Steps e w') (ho : w.Ordered) (ha : w.Apart j e)
    (h : w.analyzer.registry.session? j = some s) :
    ∃ errors, w'.analyzer.registry.session? j = some { s with errors } := by
  obtain hsame | ⟨op, hop, hreg⟩ := hs.registry
  · exact ⟨s.errors, hsame ▸ h⟩
  rw [hreg, Registry.session?_perform_eq, h]
  cases hkey : op.key == j with
  | false => exact ⟨s.errors, rfl⟩
  | true =>
    cases hop with
    | opened i => exact ⟨s.errors, rfl⟩
    | closed i => exact absurd hkey (Bool.eq_false_iff.1 ha.ends)
    | edited i => exact absurd hkey (Bool.eq_false_iff.1 ha.ends)
    | errors i ranges => exact ⟨ranges, rfl⟩
    | begun hp _ hplan _ =>
      have hforeign := ha.pass _ _ rfl hp
      rw [Operation.key, (Registry.holds_of_plan hplan).1] at hkey
      exact absurd hkey (Bool.eq_false_iff.1 hforeign)
    | @finished p k hp _ hcurrent =>
      rw [Operation.key, (ho.tickets p k hp).1] at hkey
      obtain hforeign | hcancelled := ha.pass _ _ rfl hp
      · exact absurd hkey (Bool.eq_false_iff.1 hforeign)
      · rw [ho.isCurrent_eq hp, hcancelled] at hcurrent
        cases hcurrent

theorem Steps.queries_of_apart (hs : w.Steps e w') (ha : w.Apart j e) :
    w'.queries j = w.queries j := by
  cases hs with
  | asked hp hlive =>
    obtain hforeign | hcancelled := ha.pass _ _ rfl hp
    · exact List.countP_cons_of_neg (Bool.eq_false_iff.1 hforeign)
    · rw [hlive] at hcancelled
      cases hcancelled
  | _ => rfl

/-- A question that is asked is counted. -/
theorem Steps.queries_of_asked (hs : w.Steps (.asked p) w') {k : Work}
    (hp : w.passes[p]? = some (.asking k)) (hkey : (k.request.document.key == j) = true) :
    w'.queries j = w.queries j + 1 := by
  cases hs with
  | asked hi =>
    obtain rfl := Stage.asking.inj (Option.some.inj (hp.symm.trans hi))
    exact List.countP_cons_of_pos hkey

theorem getElem?_set_self (hp : w.passes[p]? = some st) (st' : Stage) :
    (w.passes.set p st')[p]? = some st' := (getElem?_set_stage hp p).trans (if_pos rfl)

/-- A step moves no pass but its own. -/
theorem Steps.stage_of_ne (hs : w.Steps e w') (hp : w.passes[p]? = some st)
    (hne : e.pass? ≠ some p) : w'.passes[p]? = some st := by
  have hset : ∀ {i : Nat} {st₀ st₁ : Stage}, w.passes[i]? = some st₀ → some i ≠ some p →
      (w.passes.set i st₁)[p]? = some st := fun hi hne => by
    rwa [getElem?_set_stage hi, if_neg fun h => hne (congrArg some h)]
  cases hs with
  | spawned r => exact (List.getElem?_append_left (List.getElem?_eq_some_iff.1 hp).1).trans hp
  | begun hi _ => exact hset hi hne
  | asked hi => exact hset hi hne
  | skipped hi => exact hset hi hne
  | answered hi => exact hset hi hne
  | dropped hi => exact hset hi hne
  | stale hi => exact hset hi hne
  | committed hi => exact hset hi hne
  | _ => exact hp

/-- A pass that has ended makes no steps. -/
theorem Steps.pass_ne_of_done (hs : w.Steps e w') {r : Request} {o : Ending}
    (hp : w.passes[p]? = some (.done r o)) : e.pass? ≠ some p := by
  intro he
  cases hs with
  | begun hi _ =>
    cases he
    cases hp.symm.trans hi
  | asked hi | skipped hi | answered hi | dropped hi | stale hi | committed hi =>
    cases he
    cases hp.symm.trans hi
  | _ => cases he

/-! ### Passes one after another -/

/-- An event is a step of a pass; an answer is the given one. -/
structure Advances (w : World) (answer : Position → Answer) (p : Nat) (e : Event) : Prop where
  pass : e.pass? = some p
  answered : ∀ number a k q, e = .answered p number a → w.passes[p]? = some (.asking k) →
    k.fan.running? number = some q → a = answer q.candidate.position

/-- A world goes on with one pass over a document and no other. -/
inductive GoesOn (answer : Position → Answer) (j : Key) (p : Nat) (w : World) : World → Prop
  | refl : GoesOn answer j p w w
  | own {w₁ w₂ : World} {e : Event} : GoesOn answer j p w w₁ → w₁.step? e = some w₂ →
    w₁.Advances answer p e → GoesOn answer j p w w₂
  | apart {w₁ w₂ : World} {e : Event} : GoesOn answer j p w w₁ → w₁.step? e = some w₂ →
    w₁.Apart j e → GoesOn answer j p w w₂

/-- A world goes through passes over some ranges of lines of a document, each of which is called for
after the one before has ended. -/
inductive Pages (answer : Position → Answer) (d : Snapshot) (w : World) :
    List LineRange → World → Prop
  | nil : Pages answer d w [] w
  | apart {vs : List LineRange} {w₁ w₂ : World} {e : Event} : Pages answer d w vs w₁ →
    w₁.step? e = some w₂ → w₁.Apart d.key e → Pages answer d w vs w₂
  | pass {vs : List LineRange} {v : LineRange} {w₁ w₂ w₃ : World} {st : Stage} :
    Pages answer d w vs w₁ → w₁.step? (.spawned ⟨d, v⟩) = some w₂ →
    w₂.GoesOn answer d.key w₁.passes.length w₃ → w₃.passes[w₁.passes.length]? = some st →
    st.isDone = true → Pages answer d w (vs ++ [v]) w₃

theorem GoesOn.trans {answer : Position → Answer} {w₁ w₂ : World} (h : w.GoesOn answer j p w₁)
    (h' : w₁.GoesOn answer j p w₂) : w.GoesOn answer j p w₂ := by
  induction h' with
  | refl => exact h
  | own _ hs ha ih => exact ih.own hs ha
  | apart _ hs ha ih => exact ih.apart hs ha

end World

/-! ### The session of a document under way -/

/-- A document is open in a world, and its tree is kept if any. -/
structure Held (R : Readers) (d : Snapshot) (dialect : Dialect) (tree : Tree) (w : World)
    (s : Session) : Prop where
  readers : w.analyzer.readers = R
  ordered : w.Ordered
  session : w.analyzer.registry.session? d.key = some s
  kept : ∀ t, s.tree? dialect = some t → t = tree

/-- What a pass over some lines makes of a session: it has asked about some candidates, and the lines
are looked at. -/
structure Gained (answer : Position → Answer) (v : LineRange) (cs : List Candidate)
    (s₀ s : Session) : Prop extends s₀.Alike s where
  checked : ∀ line, line ∈ s.checked ↔ line ∈ s₀.checked ∨ line ∈ v ∧ line < limit
  anys : ∃ hits, s.anys = s₀.anys ++ hits ∧
    hits.Perm ((cs.filter fun c => (answer c.position).any isAnyType).map Candidate.range)

/-- The candidates a pass over some lines of a document asks about that begins in a session. -/
structure Asks (R : Readers) (d : Snapshot) (dialect : Dialect) (tree : Tree) (v : LineRange)
    (cs : List Candidate) (s₀ : Session) : Prop where
  detect : Dialect.detect d.language d.text.toList = some dialect
  parse : R.parse dialect d.text.toList = .ok tree
  questions : questions tree (s₀.uncovered v) = .ok cs
  nil : (s₀.uncovered v).isEmpty = true → cs = []

/-- A pass over some lines of a document asks about given candidates; it began in a session after `n`
questions. -/
structure Underway (R : Readers) (d : Snapshot) (dialect : Dialect) (tree : Tree)
    (answer : Position → Answer) (v : LineRange) (cs : List Candidate) (s₀ : Session) (n : Nat)
    (w : World) (k : Work) : Prop where
  admitted : ∃ s, Held R d dialect tree w s ∧ s₀.Agrees s ∧ s.admits k.ticket = true
  key : k.ticket.key = d.key
  request : k.request = ⟨d, v⟩
  settles : k.fan.Settles answer cs
  count : w.queries d.key + k.fan.waiting.length = n + cs.length

/-- How far such a pass has come. -/
inductive Turning (R : Readers) (d : Snapshot) (dialect : Dialect) (tree : Tree)
    (answer : Position → Answer) (v : LineRange) (cs : List Candidate) (s₀ : Session) (n : Nat)
    (w : World) : Stage → Prop
  | ready {s : Session} : Held R d dialect tree w s → s₀.Agrees s → w.queries d.key = n →
    Turning R d dialect tree answer v cs s₀ n w (.ready ⟨d, v⟩)
  | asking {k : Work} : Underway R d dialect tree answer v cs s₀ n w k →
    Turning R d dialect tree answer v cs s₀ n w (.asking k)
  | done {s : Session} {r : Request} {o : Ending} : Held R d dialect tree w s →
    Gained answer v cs s₀ s → w.queries d.key = n + cs.length →
    Turning R d dialect tree answer v cs s₀ n w (.done r o)

/-- A bound for the steps a pass has yet to make if it asks `n` questions. -/
def Stage.rest (n : Nat) : Stage → Nat
  | .ready _ => 2 * n + 2
  | .asking k => 2 * k.fan.waiting.length + k.fan.running.length + 1
  | .done _ _ => 0

section

variable {R : Readers} {d : Snapshot} {dialect : Dialect} {tree : Tree}
  {answer : Position → Answer} {v : LineRange} {cs : List Candidate} {s₀ s s' : Session} {n p : Nat}
  {w w' : World} {e : Event} {st : Stage} {k : Work}

theorem Held.step (h : Held R d dialect tree w s) (hs : w.Steps e w')
    (hsession : w'.analyzer.registry.session? d.key = some s')
    (hkept : ∀ t, s'.tree? dialect = some t → t = tree) : Held R d dialect tree w' s' :=
  ⟨hs.readers.trans h.readers, h.ordered.step hs, hsession, hkept⟩

theorem Held.apart (h : Held R d dialect tree w s) (hs : w.Steps e w') (ha : w.Apart d.key e) :
    ∃ s', Held R d dialect tree w' s' ∧ s.Agrees s' := by
  obtain ⟨errors, hsession⟩ := hs.session_of_apart h.ordered ha h.session
  exact ⟨{ s with errors }, h.step hs hsession h.kept, ⟨rfl, rfl⟩, rfl⟩

/-- A pass that asks with a ticket of the present generation is not cancelled. -/
theorem Held.not_cancelled (h : Held R d dialect tree w s) {k : Work}
    (hp : w.passes[p]? = some (.asking k)) (hkey : k.ticket.key = d.key)
    (hadmits : s.admits k.ticket = true) :
    w.analyzer.registry.isCurrent k.ticket = true ∧ w.isCancelled k = false := by
  have hcurrent : w.analyzer.registry.isCurrent k.ticket = true :=
    Registry.isCurrent_iff.2 ⟨s, hkey ▸ h.session, hadmits⟩
  refine ⟨hcurrent, ?_⟩
  rwa [h.ordered.isCurrent_eq hp, Bool.not_eq_true'] at hcurrent

theorem Gained.congr (h : Gained answer v cs s₀ s) (ha : s.Agrees s') :
    Gained answer v cs s₀ s' where
  number := h.number.trans ha.number
  generation := h.generation.trans ha.generation
  checked := ha.checked_eq ▸ h.checked
  anys := ha.anys_eq ▸ h.anys

/-- A pass that keeps its results gains what it asked about. -/
theorem gained_withResults (ha : s₀.Agrees s) {hits : List Range}
    (hhits : hits.Perm
      ((cs.filter fun c => (answer c.position).any isAnyType).map Candidate.range)) :
    Gained answer v cs s₀ (s.withResults v hits) where
  number := ha.number
  generation := ha.generation
  checked line := by
    rw [ha.checked_eq]
    exact s.mem_checked_withResults v hits
  anys := ⟨hits, by rw [ha.anys_eq]; exact s.anys_withResults v hits, hhits⟩

/-- A pass over lines that were all looked at before gains nothing. -/
theorem gained_of_isEmpty (ha : s₀.Agrees s) (hempty : (s.uncovered v).isEmpty = true) :
    Gained answer v [] s₀ s where
  number := ha.number
  generation := ha.generation
  checked line := by
    rw [ha.checked_eq]
    refine (or_iff_left_of_imp fun hline => ?_).symm
    by_contra hnot
    exact IntervalSet.not_mem_of_isEmpty _ hempty line (Session.mem_uncovered_iff.2 ⟨hline, hnot⟩)
  anys := ⟨[], by rw [ha.anys_eq, List.append_nil], .nil⟩

/-- A tree that is stored with a ticket of the present generation is kept. -/
theorem Held.stored (h : Held R d dialect tree w s) (hs : w.Steps e w')
    (ha : w'.analyzer.registry =
      w.analyzer.registry.storeTree ⟨d.key, s.number, s.generation⟩ dialect tree) :
    ∃ s', Held R d dialect tree w' s' ∧ s.Agrees s' := by
  have hstored : w'.analyzer.registry.session? d.key =
      some { s with tree := some ⟨tree, s.generation, dialect⟩ } := by
    rw [ha]
    show (w.analyzer.registry.perform (.storeTree _ _ _)).session? d.key = _
    rw [Registry.session?_perform_eq, h.session]
    exact (if_pos BEq.rfl).trans (by simp [Registry.effect, Session.admits])
  refine ⟨_, h.step hs hstored fun t ht => ?_, ⟨rfl, rfl⟩, rfl⟩
  obtain ⟨t', ht', rfl⟩ := Option.map_eq_some_iff.1 ht
  obtain ⟨ht', -⟩ := Option.filter_eq_some_iff.1 ht'
  obtain rfl := Option.some.inj ht'
  rfl

/-! ### The turn of a pass -/

/-- The pass does not move while something happens apart from its document. -/
theorem Turning.apart (h : Turning R d dialect tree answer v cs s₀ n w st)
    (hp : w.passes[p]? = some st) (hs : w.Steps e w') (ha : w.Apart d.key e) :
    w'.passes[p]? = some st ∧ Turning R d dialect tree answer v cs s₀ n w' st := by
  have hqueries := hs.queries_of_apart ha
  cases h with
  | ready held agrees hn =>
    obtain ⟨s', held', agrees'⟩ := held.apart hs ha
    refine ⟨hs.stage_of_ne hp fun he => ?_, .ready held' (agrees.trans agrees') (hqueries.trans hn)⟩
    have hforeign : (d.key == d.key) = false := ha.pass p _ he hp
    rw [BEq.rfl] at hforeign
    cases hforeign
  | @asking k hk =>
    obtain ⟨s, held, agrees, hadmits⟩ := hk.admitted
    obtain ⟨s', held', agrees'⟩ := held.apart hs ha
    refine ⟨hs.stage_of_ne hp fun he => ?_, .asking ⟨⟨s', held', agrees.trans agrees',
      agrees'.admits_iff.1 hadmits⟩, hk.key, hk.request, hk.settles, hqueries.symm ▸ hk.count⟩⟩
    obtain hforeign | hcancelled := ha.pass p _ he hp
    · rw [hk.request, Request.key, BEq.rfl] at hforeign
      cases hforeign
    · rw [(held.not_cancelled hp hk.key hadmits).2] at hcancelled
      cases hcancelled
  | done held gained hn =>
    obtain ⟨s', held', agrees'⟩ := held.apart hs ha
    exact ⟨hs.stage_of_ne hp (hs.pass_ne_of_done hp),
      .done held' (gained.congr agrees') (hqueries.trans hn)⟩

theorem turning_of_beginAsking (hq : Asks R d dialect tree v cs s₀)
    (held : Held R d dialect tree w s) (agrees : s₀.Agrees s) (hn : w.queries d.key = n)
    (a : Analyzer) (token : Token) :
    Turning R d dialect tree answer v cs s₀ n w
        (a.beginAsking ⟨d, v⟩ ⟨d.key, s.number, s.generation⟩ token (s.uncovered v) tree) ∧
      (a.beginAsking ⟨d, v⟩ ⟨d.key, s.number, s.generation⟩ token (s.uncovered v) tree).rest
        cs.length < 2 * cs.length + 2 := by
  have hlength : (numbered cs).length = cs.length := by simp [numbered]
  rw [← agrees.uncovered_eq, a.beginAsking_of_questions _ _ _ hq.questions]
  refine ⟨.asking ⟨⟨s, held, agrees, Registry.admits_iff.2 ⟨rfl, rfl⟩⟩, rfl, rfl, .start _ _ _, ?_⟩,
    ?_⟩
  · show w.queries d.key + (numbered cs).length = n + cs.length
    rw [hn, hlength]
  · show 2 * (numbered cs).length + 0 + 1 < 2 * cs.length + 2
    omega

/-- A pass that begins over a document that is held looks at the lines that were not looked at before, if
there are any. -/
theorem Held.begins (held : Held R d dialect tree w s)
    (hd : Dialect.detect d.language d.text.toList = some dialect)
    (hparse : R.parse dialect d.text.toList = .ok tree) {a : Analyzer}
    (hb : w.analyzer.Begins ⟨d, v⟩ a st) :
    ((s.uncovered v).isEmpty = true ∧ a = w.analyzer.render d.key ∧
      st = .done ⟨d, v⟩ (.outcome .cached)) ∨
    ∃ token, st = w.analyzer.beginAsking ⟨d, v⟩ ⟨d.key, s.number, s.generation⟩ token (s.uncovered v)
        tree ∧ (a = w.analyzer ∨ a = { w.analyzer with
          registry := w.analyzer.registry.storeTree ⟨d.key, s.number, s.generation⟩ dialect tree }) := by
  have hplan : ∀ {d' : Dialect}, w.analyzer.registry.plan d.key v d' =
      if (s.uncovered v).isEmpty then .cached
      else .work ⟨d.key, s.number, s.generation⟩ (s.uncovered v) s.token (s.tree? d') :=
    Registry.plan_eq held.session ..
  cases hb with
  | unsupported hnone => cases hd.symm.trans hnone
  | closed _ hclosed =>
    replace hclosed := hplan.symm.trans hclosed
    split at hclosed <;> cases hclosed
  | cached _ hcached =>
    replace hcached := hplan.symm.trans hcached
    split at hcached
    · exact .inl ⟨‹_›, rfl, rfl⟩
    · cases hcached
  | @reused d' _ _ _ tree' hdetect hwork =>
    obtain rfl : dialect = d' := Option.some.inj (hd.symm.trans hdetect)
    replace hwork := hplan.symm.trans hwork
    split at hwork
    · cases hwork
    · obtain ⟨rfl, rfl, rfl, htree⟩ := Plan.work.inj hwork
      obtain rfl : tree' = tree := held.kept tree' htree
      exact .inr ⟨_, rfl, .inl rfl⟩
  | refused hdetect _ hrefused =>
    obtain rfl := Option.some.inj (hd.symm.trans hdetect)
    rw [held.readers] at hrefused
    cases hparse.symm.trans hrefused
  | parsed hdetect hwork hparsed =>
    obtain rfl := Option.some.inj (hd.symm.trans hdetect)
    rw [held.readers] at hparsed
    obtain rfl := Except.ok.inj (hparse.symm.trans hparsed)
    replace hwork := hplan.symm.trans hwork
    split at hwork
    · cases hwork
    · obtain ⟨rfl, rfl, rfl, -⟩ := Plan.work.inj hwork
      exact .inr ⟨_, rfl, .inr rfl⟩

/-- A pass that begins asks about its candidates, or all of its lines were looked at before. -/
theorem turning_of_begins (hq : Asks R d dialect tree v cs s₀) (held : Held R d dialect tree w s)
    (agrees : s₀.Agrees s) (hn : w'.queries d.key = n) (hs : w.Steps e w') {a : Analyzer}
    (hb : w.analyzer.Begins ⟨d, v⟩ a st) (ha : w'.analyzer = a) :
    Turning R d dialect tree answer v cs s₀ n w' st ∧ st.rest cs.length < 2 * cs.length + 2 := by
  obtain ⟨hempty, rfl, rfl⟩ | ⟨token, rfl, rfl | rfl⟩ := held.begins hq.detect hq.parse hb
  · have hregistry : w'.analyzer.registry = w.analyzer.registry := by
      rw [ha, Analyzer.registry_render]
    obtain rfl := hq.nil (agrees.uncovered_eq v ▸ hempty)
    exact ⟨.done (held.step hs (hregistry ▸ held.session) held.kept) (gained_of_isEmpty agrees hempty) hn,
      by simp [Stage.rest]⟩
  · exact turning_of_beginAsking hq (held.step hs (ha ▸ held.session) held.kept) agrees hn _ _
  · obtain ⟨s', held', agrees'⟩ := held.stored hs (congrArg Analyzer.registry ha)
    rw [agrees'.number, agrees'.generation, agrees'.uncovered_eq]
    exact turning_of_beginAsking hq held' (agrees.trans agrees') hn _ _

theorem Underway.asked (h : Underway R d dialect tree answer v cs s₀ n w k)
    (hp : w.passes[p]? = some (.asking k)) (hs : w.Steps (.asked p) w') :
    ∃ st, w'.passes[p]? = some st ∧ Turning R d dialect tree answer v cs s₀ n w' st ∧
      st.rest cs.length < (Stage.asking k).rest cs.length := by
  have hqueries := hs.queries_of_asked hp (j := d.key) (by rw [h.request]; exact BEq.rfl)
  obtain ⟨s, held, agrees, hadmits⟩ := h.admitted
  have hcount := h.count
  cases hs with
  | @asked _ k' q fan hi hc hf =>
    obtain rfl := Stage.asking.inj (Option.some.inj (hp.symm.trans hi))
    obtain ⟨hwaiting, -, hrunning, -⟩ := Fanout.ask?_eq_some hf
    refine ⟨_, World.getElem?_set_self hp _, .asking ?_, ?_⟩
    · refine ⟨⟨s, held.step (.asked hi hc hf) held.session held.kept, agrees, hadmits⟩, h.key,
        h.request, h.settles.ask? hf, ?_⟩
      rw [hqueries]
      show _ + 1 + fan.waiting.length = _
      omega
    · simp only [Stage.rest, hrunning, List.length_append, List.length_singleton]
      omega

theorem Underway.answered (h : Underway R d dialect tree answer v cs s₀ n w k)
    (hp : w.passes[p]? = some (.asking k)) {number : Nat} {a : Answer}
    (hs : w.Steps (.answered p number a) w')
    (ha : ∀ q, k.fan.running? number = some q → a = answer q.candidate.position) :
    ∃ st, w'.passes[p]? = some st ∧ Turning R d dialect tree answer v cs s₀ n w' st ∧
      st.rest cs.length < (Stage.asking k).rest cs.length := by
  obtain ⟨s, held, agrees, hadmits⟩ := h.admitted
  cases hs with
  | @answered _ _ _ k' fan hi hc hf =>
    obtain rfl := Stage.asking.inj (Option.some.inj (hp.symm.trans hi))
    obtain ⟨q, hq, hwaiting, hrunning⟩ := Fanout.answer?_eq_some hf
    obtain rfl := ha q hq
    refine ⟨_, World.getElem?_set_self hp _, .asking ?_, ?_⟩
    · refine ⟨⟨s, held.step (.answered hi hc hf) held.session held.kept, agrees, hadmits⟩, h.key,
        h.request, h.settles.answer? hq hf, ?_⟩
      show w.queries d.key + fan.waiting.length = _
      rw [hwaiting]
      exact h.count
    · simp only [Stage.rest, hwaiting]
      omega

/-- A pass that has asked everything keeps its results. -/
theorem Underway.finished (h : Underway R d dialect tree answer v cs s₀ n w k)
    (hp : w.passes[p]? = some (.asking k)) (hs : w.Steps (.finished p) w') :
    ∃ st, w'.passes[p]? = some st ∧ Turning R d dialect tree answer v cs s₀ n w' st ∧
      st.rest cs.length < (Stage.asking k).rest cs.length := by
  obtain ⟨s, held, agrees, hadmits⟩ := h.admitted
  obtain ⟨hcurrent, -⟩ := held.not_cancelled hp h.key hadmits
  cases hs with
  | stale hi _ hc =>
    obtain rfl := Stage.asking.inj (Option.some.inj (hp.symm.trans hi))
    rw [← Registry.commit?_isSome k.request.visible k.fan.hits, hc] at hcurrent
    cases hcurrent
  | @committed _ k' registry hi hdone hc =>
    obtain rfl := Stage.asking.inj (Option.some.inj (hp.symm.trans hi))
    have hkey : (k.ticket.key == d.key) = true := by
      rw [h.key]
      exact BEq.rfl
    obtain ⟨s₁, hs₁, hsession⟩ := Registry.session?_of_commit? hc hkey
    obtain rfl : s = s₁ := Option.some.inj (held.session.symm.trans hs₁)
    have hregistry : (Analyzer.render { w.analyzer with registry } k.request.key).registry =
      registry := Analyzer.registry_render _ _
    rw [h.request, ← hregistry] at hsession
    have hcount := h.count
    rw [(List.append_eq_nil_iff.1 (Fanout.Tracks.pending_eq_nil hdone)).1] at hcount
    exact ⟨_, World.getElem?_set_self hp _, .done (held.step (.committed hi hdone hc) hsession
      held.kept) (gained_withResults agrees (h.settles.hits_perm hdone)) hcount, Nat.succ_pos _⟩

/-- Each step of the pass takes it closer to its end. -/
theorem Turning.own (h : Turning R d dialect tree answer v cs s₀ n w st)
    (hq : Asks R d dialect tree v cs s₀) (hp : w.passes[p]? = some st) (hs : w.Steps e w')
    (ha : w.Advances answer p e) :
    ∃ st', w'.passes[p]? = some st' ∧ Turning R d dialect tree answer v cs s₀ n w' st' ∧
      st'.rest cs.length < st.rest cs.length := by
  cases h with
  | ready held agrees hn =>
    cases hs with
    | begun hi hb =>
      cases ha.pass
      obtain rfl := Stage.ready.inj (Option.some.inj (hp.symm.trans hi))
      exact ⟨_, World.getElem?_set_self hp _,
        turning_of_begins hq held agrees hn (.begun hi hb) hb rfl⟩
    | asked hi | skipped hi | answered hi | dropped hi | stale hi | committed hi =>
      cases ha.pass
      cases hp.symm.trans hi
    | _ => cases ha.pass
  | @asking k hk =>
    obtain ⟨s, held, -, hadmits⟩ := hk.admitted
    have hlive := (held.not_cancelled hp hk.key hadmits).2
    have hpass := ha.pass
    cases e with
    | asked =>
      cases hpass
      exact hk.asked hp hs
    | answered _ number a =>
      cases hpass
      exact hk.answered hp hs fun q hq => ha.answered number a k q rfl hp hq
    | finished =>
      cases hpass
      exact hk.finished hp hs
    | begun =>
      cases hpass
      cases hs with
      | begun hi => cases hp.symm.trans hi
    | skipped =>
      cases hpass
      cases hs with
      | skipped hi hc =>
        obtain rfl := Stage.asking.inj (Option.some.inj (hp.symm.trans hi))
        cases hlive.symm.trans hc
    | dropped =>
      cases hpass
      cases hs with
      | dropped hi hc =>
        obtain rfl := Stage.asking.inj (Option.some.inj (hp.symm.trans hi))
        cases hlive.symm.trans hc
    | _ => cases hpass
  | done held gained hn => exact absurd ha.pass (hs.pass_ne_of_done hp)

/-- Unless the pass has ended it can make a step. -/
theorem Turning.possible (h : Turning R d dialect tree answer v cs s₀ n w st)
    (hp : w.passes[p]? = some st) (hdone : st.isDone = false) :
    ∃ e, (w.step? e).isSome = true ∧ w.Advances answer p e := by
  cases h with
  | ready =>
    refine ⟨.begun p, ?_, rfl, fun _ _ _ _ he => Event.noConfusion he⟩
    rw [World.step?, hp]
    rfl
  | @asking k hunderway =>
    obtain ⟨s, held, -, hadmits⟩ := hunderway.admitted
    have hk : w.asking? p = some k := World.asking?_eq_some_iff.2 hp
    have hlive := (held.not_cancelled hp hunderway.key hadmits).2
    cases hrunning : k.fan.running with
    | cons q qs =>
      have hq : k.fan.running? q.number = some q := by simp [Fanout.running?, hrunning]
      refine ⟨.answered p q.number (answer q.candidate.position), ?_, rfl, ?_⟩
      · simp only [World.step?, hk, hlive, Fanout.answer?, hq, Option.bind_eq_bind,
          Option.bind_some, Option.map_some]
        rfl
      · rintro number a k' q' he hp' hq'
        cases he
        obtain rfl := Stage.asking.inj (Option.some.inj (hp.symm.trans hp'))
        obtain rfl := Option.some.inj (hq.symm.trans hq')
        rfl
    | nil =>
      cases hwaiting : k.fan.waiting with
      | cons q qs =>
        refine ⟨.asked p, ?_, rfl, fun _ _ _ _ he => Event.noConfusion he⟩
        simp only [World.step?, hk, hlive, Fanout.ask?, hwaiting, hrunning, List.length_nil,
          if_pos hunderway.settles.room, Option.bind_eq_bind, Option.bind_some]
        rfl
      | nil =>
        refine ⟨.finished p, ?_, rfl, fun _ _ _ _ he => Event.noConfusion he⟩
        simp only [World.step?, hk, Fanout.isDone, hwaiting, hrunning, Option.bind_eq_bind,
          Option.bind_some]
        rfl
  | done => cases hdone

theorem exists_turning_of_goesOn (hq : Asks R d dialect tree v cs s₀)
    (h : w.GoesOn answer d.key p w') (hp : w.passes[p]? = some st)
    (ht : Turning R d dialect tree answer v cs s₀ n w st) :
    ∃ st', w'.passes[p]? = some st' ∧ Turning R d dialect tree answer v cs s₀ n w' st' := by
  induction h with
  | refl => exact ⟨st, hp, ht⟩
  | own _ hs ha ih =>
    obtain ⟨st₁, hp₁, ht₁⟩ := ih
    obtain ⟨st₂, hp₂, ht₂, -⟩ := ht₁.own hq hp₁ (World.steps_of_step? hs) ha
    exact ⟨st₂, hp₂, ht₂⟩
  | apart _ hs ha ih =>
    obtain ⟨st₁, hp₁, ht₁⟩ := ih
    exact ⟨st₁, ht₁.apart hp₁ (World.steps_of_step? hs) ha⟩

/-- A pass whose questions are answered comes to its end. -/
theorem exists_goesOn_done (hq : Asks R d dialect tree v cs s₀) (hp : w.passes[p]? = some st)
    (ht : Turning R d dialect tree answer v cs s₀ n w st) :
    ∃ w' st', w.GoesOn answer d.key p w' ∧ w'.passes[p]? = some st' ∧ st'.isDone = true := by
  induction hrest : st.rest cs.length using Nat.strong_induction_on generalizing w st with
  | _ m ih =>
    cases hdone : st.isDone with
    | true => exact ⟨w, st, .refl, hp, hdone⟩
    | false =>
      obtain ⟨e, he, ha⟩ := ht.possible hp hdone
      obtain ⟨w₁, hs⟩ := Option.isSome_iff_exists.1 he
      obtain ⟨st₁, hp₁, ht₁, hlt⟩ := ht.own hq hp (World.steps_of_step? hs) ha
      obtain ⟨w', st', hgo, hend⟩ := ih _ (hrest ▸ hlt) hp₁ ht₁ rfl
      exact ⟨w', st', (World.GoesOn.refl.own hs ha).trans hgo, hend⟩

/-- A pass that is called for is about to begin. -/
theorem turning_of_spawned (held : Held R d dialect tree w s)
    (hs : w.step? (.spawned ⟨d, v⟩) = some w') :
    w'.passes[w.passes.length]? = some (.ready ⟨d, v⟩) ∧
      Turning R d dialect tree answer v cs s (w.queries d.key) w' (.ready ⟨d, v⟩) := by
  have hsteps := World.steps_of_step? hs
  obtain rfl := Option.some.inj hs
  exact ⟨List.getElem?_concat_length, .ready (held.step hsteps held.session held.kept) (.refl s) rfl⟩

/-! ### What was found so far -/

/-- The ranges of the identifiers of a document that touch some lines. -/
def rangesOn (R : Readers) (d : Snapshot) (lines : IntervalSet) : Finset Range :=
  ((R.candidates d).map Candidate.range).toFinset.filter fun r => r.touches lines = true

/-- What was found in a session is what there is to find on some ranges of lines, with `n`
questions. -/
structure Explored (R : Readers) (d : Snapshot) (answer : Position → Answer) (vs : List LineRange)
    (s : Session) (n : Nat) : Prop where
  checked : ∀ line, line ∈ s.checked ↔ line < limit ∧ ∃ v ∈ vs, line ∈ v
  nodup : s.anys.Nodup
  mem_anys : ∀ r, r ∈ s.anys ↔ r ∈ rangesOn R d s.checked ∧ (answer r.start).any isAnyType = true
  count : n = (rangesOn R d s.checked).card

theorem mem_rangesOn_iff {lines : IntervalSet} {r : Range} : r ∈ rangesOn R d lines ↔
    (∃ x ∈ R.candidates d, x.range = r) ∧ r.touches lines = true := by
  rw [rangesOn, Finset.mem_filter, List.mem_toFinset, List.mem_map]

/-- An identifier on one line touches the sets that hold this line. -/
theorem touches_iff_of_line {lines : IntervalSet} {r : Range} (hr : r.start.line = r.stop.line)
    (hlt : ∀ line ∈ lines, line < limit) : r.touches lines = true ↔ r.start.line ∈ lines := by
  rw [Range.touches_iff]
  constructor
  · rintro ⟨line, hline, ⟨h₁, h₂⟩, -⟩
    obtain rfl : line = r.start.line := by omega
    exact hline
  · exact fun hline => ⟨_, hline, ⟨Nat.le_refl _, hr.le⟩, hlt _ hline⟩

theorem explored_of_new (hnew : s.current? = none) : Explored R d answer [] s 0 := by
  have hchecked : ∀ line, line ∉ s.checked := by
    rw [Session.checked, hnew]
    exact IntervalSet.not_mem_empty
  have hranges : rangesOn R d s.checked = ∅ := by
    refine Finset.eq_empty_of_forall_notMem fun r hr => ?_
    obtain ⟨line, hline, -⟩ := Range.touches_iff.1 (mem_rangesOn_iff.1 hr).2
    exact hchecked line hline
  have hanys : s.anys = [] := by
    rw [Session.anys, hnew]
    rfl
  refine ⟨fun line => ?_, hanys ▸ .nil, fun r => ?_, by rw [hranges, Finset.card_empty]⟩
  · simp [hchecked line]
  · simp [hranges, hanys]

/-- What is on lines not looked at before is not on lines that were. -/
theorem not_mem_rangesOn_uncovered
    (hline : ∀ x ∈ R.candidates d, x.range.start.line = x.range.stop.line)
    (hlimit : ∀ line ∈ s.checked, line < limit) {r : Range} (hr : r ∈ rangesOn R d s.checked) :
    r ∉ rangesOn R d (s.uncovered v) := by
  intro hr'
  obtain ⟨⟨x, hx, rfl⟩, ht⟩ := mem_rangesOn_iff.1 hr
  have ht' := (mem_rangesOn_iff.1 hr').2
  rw [touches_iff_of_line (hline x hx) hlimit] at ht
  rw [touches_iff_of_line (hline x hx) fun _ hl => (Session.mem_uncovered_iff.1 hl).1.2] at ht'
  exact (Session.mem_uncovered_iff.1 ht').2 ht

/-- After a pass the ranges on new lines are there as well. -/
theorem Gained.mem_rangesOn_iff (hg : Gained answer v cs s₀ s)
    (hline : ∀ x ∈ R.candidates d, x.range.start.line = x.range.stop.line)
    (hlimit : ∀ line ∈ s₀.checked, line < limit) (r : Range) : r ∈ rangesOn R d s.checked ↔
      r ∈ rangesOn R d s₀.checked ∨ r ∈ rangesOn R d (s₀.uncovered v) := by
  have hlimit' : ∀ line ∈ s.checked, line < limit := fun line hl =>
    ((hg.checked line).1 hl).elim (hlimit line) And.right
  simp only [Passes.mem_rangesOn_iff, ← and_or_left]
  refine and_congr_right ?_
  rintro ⟨x, hx, rfl⟩
  rw [touches_iff_of_line (hline x hx) hlimit, touches_iff_of_line (hline x hx) hlimit',
    touches_iff_of_line (hline x hx) fun _ hl => (Session.mem_uncovered_iff.1 hl).1.2,
    hg.checked, Session.mem_uncovered_iff]
  tauto

/-- What is found by a pass that asks about what was not looked at before was not found before. -/
theorem Explored.gain {vs : List LineRange} (h : Explored R d answer vs s₀ n)
    (hline : ∀ x ∈ R.candidates d, x.range.start.line = x.range.stop.line)
    (hnodup : (cs.map Candidate.range).Nodup)
    (hranges : (cs.map Candidate.range).toFinset = rangesOn R d (s₀.uncovered v))
    (hg : Gained answer v cs s₀ s) : Explored R d answer (vs ++ [v]) s (n + cs.length) := by
  have hlimit : ∀ line ∈ s₀.checked, line < limit := fun line hl => ((h.checked line).1 hl).1
  have hsplit := hg.mem_rangesOn_iff hline hlimit
  have hdisjoint : ∀ r ∈ rangesOn R d s₀.checked, r ∉ rangesOn R d (s₀.uncovered v) :=
    fun _ => not_mem_rangesOn_uncovered hline hlimit
  obtain ⟨hits, hanys, hhits⟩ := hg.anys
  have hmem : ∀ r, r ∈ hits ↔
      r ∈ rangesOn R d (s₀.uncovered v) ∧ (answer r.start).any isAnyType = true := by
    intro r
    rw [hhits.mem_iff, ← hranges, List.mem_toFinset, List.mem_map, List.mem_map]
    constructor
    · rintro ⟨c, hc, rfl⟩
      obtain ⟨hc, hany⟩ := List.mem_filter.1 hc
      exact ⟨⟨c, hc, rfl⟩, hany⟩
    · rintro ⟨⟨c, hc, rfl⟩, hany⟩
      exact ⟨c, List.mem_filter.2 ⟨hc, hany⟩, rfl⟩
  refine ⟨fun line => ?_, ?_, fun r => ?_, ?_⟩
  · rw [hg.checked, h.checked]
    simp only [List.mem_append, List.mem_singleton, or_and_right, exists_or, exists_eq_left]
    exact (or_congr_right And.comm).trans and_or_left.symm
  · rw [hanys]
    refine h.nodup.append (hhits.nodup_iff.2 ?_) fun r hr hr' => ?_
    · exact hnodup.sublist (List.filter_sublist.map _)
    · exact hdisjoint r ((h.mem_anys r).1 hr).1 ((hmem r).1 hr').1
  · rw [hanys, List.mem_append, h.mem_anys, hmem, hsplit, or_and_right]
  · have hunion : rangesOn R d s.checked =
        rangesOn R d s₀.checked ∪ rangesOn R d (s₀.uncovered v) :=
      Finset.ext fun r => (hsplit r).trans Finset.mem_union.symm
    rw [hunion, Finset.card_union_of_disjoint (Finset.disjoint_left.2 hdisjoint), ← h.count,
      ← hranges, List.toFinset_card_of_nodup hnodup, List.length_map]

theorem exists_asks (hR : R.Nested)
    (hd : Dialect.detect d.language d.text.toList = some dialect)
    (hparse : R.parse dialect d.text.toList = .ok tree) (v : LineRange) (s₀ : Session) :
    ∃ cs, Asks R d dialect tree v cs s₀ ∧ (cs.map Candidate.range).Nodup ∧
      (cs.map Candidate.range).toFinset = rangesOn R d (s₀.uncovered v) := by
  obtain ⟨o, ho, hl⟩ := Readers.parse_shaped hR hparse
  obtain ⟨cs, all, hcs, hall, hiff⟩ := exists_questions_iff ho hl (s₀.uncovered v)
  have hcandidates := Readers.candidates_eq hd hparse hall
  have hranges : ∀ r, (∃ c ∈ cs, c.range = r) ↔ r ∈ rangesOn R d (s₀.uncovered v) := by
    intro r
    rw [hiff, mem_rangesOn_iff, hcandidates]
    constructor
    · rintro ⟨c, hc, rfl, ht⟩
      exact ⟨⟨c, hc, rfl⟩, ht⟩
    · rintro ⟨⟨c, hc, rfl⟩, ht⟩
      exact ⟨c, hc, rfl, ht⟩
  refine ⟨cs, ⟨hd, hparse, hcs, fun hempty => ?_⟩, nodup_questions hcs, Finset.ext fun r => ?_⟩
  · refine List.eq_nil_iff_forall_not_mem.2 fun c hc => ?_
    obtain ⟨line, hline, -⟩ :=
      Range.touches_iff.1 (mem_rangesOn_iff.1 ((hranges _).1 ⟨c, hc, rfl⟩)).2
    exact IntervalSet.not_mem_of_isEmpty _ hempty line hline
  · rw [List.mem_toFinset, List.mem_map]
    exact hranges r

/-- After passes one after another, what was found is what there is to find on their lines. -/
theorem exists_explored_of_pages (hR : R.Nested)
    (hd : Dialect.detect d.language d.text.toList = some dialect)
    (hparse : R.parse dialect d.text.toList = .ok tree)
    (hline : ∀ x ∈ R.candidates d, x.range.start.line = x.range.stop.line)
    (held : Held R d dialect tree w s₀) (hnew : s₀.current? = none) {vs : List LineRange}
    (h : w.Pages answer d vs w') : ∃ s, Held R d dialect tree w' s ∧ s₀.Alike s ∧
      ∃ n, w'.queries d.key = w.queries d.key + n ∧ Explored R d answer vs s n := by
  induction h with
  | nil => exact ⟨s₀, held, ⟨rfl, rfl⟩, 0, rfl, explored_of_new hnew⟩
  | apart _ hs ha ih =>
    obtain ⟨s, held, halike, n, hn, he⟩ := ih
    have hsteps := World.steps_of_step? hs
    obtain ⟨s', held', agrees⟩ := held.apart hsteps ha
    refine ⟨s', held', ⟨halike.number.trans agrees.number,
      halike.generation.trans agrees.generation⟩, n, (hsteps.queries_of_apart ha).trans hn, ?_⟩
    exact ⟨agrees.checked_eq ▸ he.checked, agrees.anys_eq ▸ he.nodup,
      agrees.anys_eq ▸ agrees.checked_eq ▸ he.mem_anys, agrees.checked_eq ▸ he.count⟩
  | @pass vs v w₁ w₂ w₃ st _ hs hgo hp hdone ih =>
    obtain ⟨s, held, halike, n, hn, he⟩ := ih
    obtain ⟨cs, hq, hnodup, hranges⟩ := exists_asks hR hd hparse v s
    obtain ⟨hp₂, ht₂⟩ := turning_of_spawned held hs
    obtain ⟨st', hp₃, ht₃⟩ := exists_turning_of_goesOn hq hgo hp₂ ht₂
    obtain rfl := Option.some.inj (hp.symm.trans hp₃)
    cases ht₃ with
    | ready | asking => cases hdone
    | @done s' _ _ held' gained hn' =>
      refine ⟨s', held', ⟨halike.number.trans gained.number,
        halike.generation.trans gained.generation⟩, n + cs.length, ?_,
        he.gain hline hnodup hranges gained⟩
      rw [hn', hn, Nat.add_assoc]

/-- Passes over any ranges of lines can be made one after another. -/
theorem exists_pages (hR : R.Nested)
    (hd : Dialect.detect d.language d.text.toList = some dialect)
    (hparse : R.parse dialect d.text.toList = .ok tree)
    (hline : ∀ x ∈ R.candidates d, x.range.start.line = x.range.stop.line)
    (held : Held R d dialect tree w s₀) (hnew : s₀.current? = none) (vs : List LineRange) :
    ∃ w', w.Pages answer d vs w' := by
  induction vs using List.reverseRecOn with
  | nil => exact ⟨w, .nil⟩
  | append_singleton vs v ih =>
    obtain ⟨w₁, hpages⟩ := ih
    obtain ⟨s, held, -⟩ := exists_explored_of_pages hR hd hparse hline held hnew hpages
    obtain ⟨cs, hq, -⟩ := exists_asks hR hd hparse v s
    have hs : w₁.step? (.spawned ⟨d, v⟩) = some _ := rfl
    obtain ⟨hp, ht⟩ := turning_of_spawned held hs
    obtain ⟨w₃, st, hgo, hp₃, hdone⟩ := exists_goesOn_done hq hp ht
    exact ⟨w₃, hpages.pass hs hgo hp₃ hdone⟩

/-! ### Kept trees -/

/-- A tree kept in a generation in which nothing was found yet is that of a pass under way. -/
def TreesPursued (w : World) : Prop :=
  ∀ j s t, w.analyzer.registry.session? j = some s → s.current? = none → s.tree = some t →
    ∃ (p : Nat) (k : Work), w.passes[p]? = some (.asking k) ∧ (k.ticket.key == j) = true ∧
      s.admits k.ticket = true

/-- A pass that parses a document asks about it. -/
theorem exists_asking_of_parsed (hR : R.Nested) (hreaders : w.analyzer.readers = R) {r : Request}
    {t : Ticket} {lines : IntervalSet} {token : Token} (hs : w.Steps (.begun p) w')
    (hp : w.passes[p]? = some (.ready r))
    (hd : Dialect.detect r.document.language r.document.text.toList = some dialect)
    (hplan : w.analyzer.registry.plan r.key r.visible dialect = .work t lines token none)
    (hparse : R.parse dialect r.document.text.toList = .ok tree) :
    ∃ k, w'.passes[p]? = some (.asking k) ∧ k.ticket = t := by
  cases hs with
  | begun hi hb =>
    obtain rfl := Stage.ready.inj (Option.some.inj (hp.symm.trans hi))
    cases hb with
    | unsupported hnone => cases hd.symm.trans hnone
    | closed hd' hplan' | cached hd' hplan' | reused hd' hplan' =>
      obtain rfl := Option.some.inj (hd.symm.trans hd')
      cases hplan.symm.trans hplan'
    | refused hd' _ hparse' =>
      obtain rfl := Option.some.inj (hd.symm.trans hd')
      rw [hreaders] at hparse'
      cases hparse.symm.trans hparse'
    | parsed hd' hplan' hparse' =>
      obtain rfl := Option.some.inj (hd.symm.trans hd')
      cases hplan.symm.trans hplan'
      rw [hreaders] at hparse'
      obtain rfl := Except.ok.inj (hparse.symm.trans hparse')
      obtain ⟨o, ho, hl⟩ := Readers.parse_shaped hR hparse
      obtain ⟨cs, -, hcs, -⟩ := exists_questions_iff ho hl lines
      have hstage := w.analyzer.beginAsking_of_questions r t token hcs
      exact ⟨_, (World.getElem?_set_self hi _).trans (congrArg some hstage), rfl⟩

theorem TreesPursued.step (h : TreesPursued w) (hR : R.Nested) (hreaders : w.analyzer.readers = R)
    (hs : w.Steps e w') : TreesPursued w' := by
  intro j s t hj hnone htree
  -- the pass goes on, or else it has kept its results
  have hgo : ∀ s₀, w.analyzer.registry.session? j = some s₀ → s₀.current? = none →
      s₀.tree = some t → s₀.Alike s → ∃ (p : Nat) (k : Work), w'.passes[p]? = some (.asking k) ∧
        (k.ticket.key == j) = true ∧ s.admits k.ticket = true := by
    intro s₀ h₀ hnone₀ htree₀ halike
    obtain ⟨p, k, hp, hkey, hadmits⟩ := h j s₀ t h₀ hnone₀ htree₀
    have hadmits' : s.admits k.ticket = true := by
      rwa [Registry.admits_iff, ← halike.number, ← halike.generation, ← Registry.admits_iff]
    obtain ⟨st, hp', hbecomes⟩ := hs.becomes hp
    cases hbecomes with
    | same => exact ⟨p, k, hp', hkey, hadmits'⟩
    | moved => exact ⟨p, _, hp', hkey, hadmits'⟩
    | stale hc =>
      have hcurrent : w.analyzer.registry.isCurrent k.ticket = true :=
        Registry.isCurrent_iff.2 ⟨s₀, (Registry.session?_congr hkey).trans h₀, hadmits⟩
      rw [← Registry.commit?_isSome k.request.visible k.fan.hits, hc] at hcurrent
      cases hcurrent
    | committed hc =>
      obtain ⟨s₁, -, hj'⟩ := Registry.session?_of_commit? hc hkey
      obtain rfl := Option.some.inj (hj'.symm.trans hj)
      rw [Session.current?_withResults] at hnone
      cases hnone
  obtain hsame | ⟨op, hop, hreg⟩ := hs.registry
  · exact hgo s (hsame ▸ hj) hnone htree ⟨rfl, rfl⟩
  rw [hreg] at hj
  obtain ⟨hblank, -⟩ | ⟨s₀, h₀, hgoes⟩ := Registry.session?_perform hj
  · rw [hblank.tree] at htree
    cases htree
  cases hgoes with
  | same => exact hgo s h₀ hnone htree ⟨rfl, rfl⟩
  | judged => exact hgo s₀ h₀ hnone htree ⟨rfl, rfl⟩
  | stored hkey hadmits =>
    cases hop with
    | begun hp hd hplan hparse =>
      rw [hreaders] at hparse
      obtain ⟨k, hk, rfl⟩ := exists_asking_of_parsed hR hreaders hs hp hd hplan hparse
      exact ⟨_, k, hk, hkey, hadmits⟩
  | committed =>
    rw [Session.current?_withResults] at hnone
    cases hnone

theorem treesPursued_of_history {c : Config} {ms : List Moment} (hR : R.Nested)
    (h : History (.reading R c) ms w) : TreesPursued w := by
  induction h with
  | start => exact nofun
  | step h hs ih => exact ih.step hR h.readers (World.steps_of_step? hs)

/-- No tree is kept in a generation in which nothing was found if no pass works on the document. -/
theorem held_of_new {c : Config} {ms : List Moment} (hR : R.Nested)
    (hw : History (.reading R c) ms w) (hs : w.analyzer.registry.session? d.key = some s)
    (hnew : s.current? = none) (hidle : ∀ k : Work, .asking k ∈ w.passes →
      (k.request.key == d.key) = true → w.isCancelled k = true) : Held R d dialect tree w s := by
  have hpursued := treesPursued_of_history hR hw
  refine ⟨hw.readers, hw.ordered, hs, fun t ht => ?_⟩
  cases htree : s.tree with
  | none =>
    rw [Session.tree?, htree] at ht
    cases ht
  | some t' =>
    obtain ⟨p, k, hp, hkey, hadmits⟩ := hpursued d.key s t' hs hnew htree
    have hcurrent : w.analyzer.registry.isCurrent k.ticket = true :=
      Registry.isCurrent_iff.2 ⟨s, (Registry.session?_congr hkey).trans hs, hadmits⟩
    rw [hw.ordered.isCurrent_eq hp, hidle k (List.mem_of_getElem? hp)
      ((hw.ordered.tickets p k hp).1 ▸ hkey)] at hcurrent
    cases hcurrent

/-- Passes over some ranges of lines of an open document, one after another, can be made; and however
they go, in the end the lines of the ranges are those that were looked at, the ranges found are those
of the identifiers on these lines whose type is `any`, each once, and there were as many questions as
there are ranges of identifiers on these lines.  So it is all the same how the lines are divided. -/
theorem paging_finds_union {c : Config} {ms : List Moment} (hR : R.Nested)
    (hw : History (.reading R c) ms w)
    (hd : Dialect.detect d.language d.text.toList = some dialect)
    (hparse : R.parse dialect d.text.toList = .ok tree)
    (hline : ∀ x ∈ R.candidates d, x.range.start.line = x.range.stop.line)
    (hs : w.analyzer.registry.session? d.key = some s) (hnew : s.current? = none)
    (hidle : ∀ k : Work, .asking k ∈ w.passes → (k.request.key == d.key) = true →
      w.isCancelled k = true) (answer : Position → Answer) (vs : List LineRange) :
    (∃ w', w.Pages answer d vs w') ∧ ∀ w', w.Pages answer d vs w' →
      ∃ s', w'.analyzer.registry.session? d.key = some s' ∧ s.Alike s' ∧
        (∀ line, line ∈ s'.checked ↔ line < limit ∧ ∃ v ∈ vs, line ∈ v) ∧
        s'.anys.Nodup ∧
        (∀ r, r ∈ s'.anys ↔ ∃ x ∈ R.candidates d, x.range = r ∧
          (r.start.line < limit ∧ ∃ v ∈ vs, r.start.line ∈ v) ∧
          (answer x.position).any isAnyType = true) ∧
        w'.queries d.key = w.queries d.key + (((R.candidates d).map Candidate.range).toFinset.filter
          fun r => r.start.line < limit ∧ ∃ v ∈ vs, r.start.line ∈ v).card := by
  have held : Held R d dialect tree w s := held_of_new hR hw hs hnew hidle
  refine ⟨exists_pages hR hd hparse hline held hnew vs, fun w' hpages => ?_⟩
  obtain ⟨s', held', halike, n, hn, he⟩ :=
    exists_explored_of_pages hR hd hparse hline held hnew hpages
  have htouches : ∀ x ∈ R.candidates d, x.range.touches s'.checked = true ↔
      x.range.start.line < limit ∧ ∃ v ∈ vs, x.range.start.line ∈ v := by
    intro x hx
    rw [touches_iff_of_line (hline x hx) fun line hl => ((he.checked line).1 hl).1, he.checked]
  refine ⟨s', held'.session, halike, he.checked, he.nodup, fun r => ?_, ?_⟩
  · rw [he.mem_anys, mem_rangesOn_iff]
    constructor
    · rintro ⟨⟨⟨x, hx, rfl⟩, ht⟩, hany⟩
      exact ⟨x, hx, rfl, (htouches x hx).1 ht, hany⟩
    · rintro ⟨x, hx, rfl, ht, hany⟩
      exact ⟨⟨⟨x, hx, rfl⟩, (htouches x hx).2 ht⟩, hany⟩
  · rw [hn, he.count, rangesOn]
    refine congrArg (fun f : Finset Range => _ + f.card) (Finset.filter_congr fun r hr => ?_)
    obtain ⟨x, hx, rfl⟩ := List.mem_map.1 (List.mem_toFinset.1 hr)
    exact htouches x hx

end

namespace TwoLines

/-- The world after the two lines were opened. -/
def opened : World := start.step (.opened document.key)

/-- The first line, both lines and the second line. -/
def pages : List LineRange := [lineAt 0, linesTo 1, lineAt 1]

end TwoLines

open TwoLines in
/-- Passes over the first line, both lines and the second line ask two questions in all. -/
theorem two_questions_for_two_lines :
    readers.Nested ∧ (∀ x ∈ readers.candidates document, x.range.start.line = x.range.stop.line) ∧
      ∃ w', opened.Pages (fun _ => some signature) document pages w' ∧
        w'.queries document.key = 2 ∧ ∃ s', w'.analyzer.registry.session? document.key = some s' ∧
          s'.anys.Nodup ∧ (∀ r, r ∈ s'.anys ↔ r = ⟨⟨0, 0⟩, ⟨0, 1⟩⟩ ∨ r = ⟨⟨1, 0⟩, ⟨1, 1⟩⟩) := by
  have hrun : History start (start.moments [.opened document.key]) opened :=
    World.history_moments (by decide +kernel)
  have hcandidates : readers.candidates document =
      [⟨0, "x", ⟨⟨0, 0⟩, ⟨0, 1⟩⟩⟩, ⟨2, "x", ⟨⟨1, 0⟩, ⟨1, 1⟩⟩⟩] := by decide +kernel
  have hline : ∀ x ∈ readers.candidates document, x.range.start.line = x.range.stop.line := by
    rw [hcandidates]
    decide
  have hany : Option.any isAnyType (some signature) = true := by decide +kernel
  have hdetect : Dialect.detect document.language document.text.toList = some .typeScript := by
    decide +kernel
  have hparse : readers.parse .typeScript document.text.toList =
    .ok (lower document.text.toList tree) := rfl
  have hopen : opened.analyzer.registry.session? document.key = some (.new 1 0) := rfl
  obtain ⟨⟨w', hpages⟩, hall⟩ := paging_finds_union nested_readers hrun hdetect hparse hline hopen
    rfl nofun (fun _ => some signature) pages
  obtain ⟨s', hs', -, -, hnodup, hanys, hqueries⟩ := hall w' hpages
  refine ⟨nested_readers, hline, w', hpages, ?_, s', hs', hnodup, fun r => ?_⟩
  · rw [hqueries, hcandidates]
    decide +kernel
  · rw [hanys, hcandidates]
    constructor
    · rintro ⟨x, hx, rfl, -⟩
      exact (List.mem_pair.1 hx).imp (congrArg Candidate.range) (congrArg Candidate.range)
    · rintro (rfl | rfl)
      · exact ⟨_, List.mem_cons_self, rfl, by decide, hany⟩
      · exact ⟨_, List.mem_cons_of_mem _ List.mem_cons_self, rfl, by decide, hany⟩

end AnySpans.Passes
