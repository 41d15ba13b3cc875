import AnySpans.Proofs.Endings

/-!
# Cancelled passes

An edit of an open document, or closing it, cancels the passes that were begun over it before: from
then on they put no question and take no answer (`World.Silent`).  No other pass is held up
(`History.held_up`).  A pass that was cancelled stays so and is stale in the end (`World.Parted`), so
that a pass which keeps its results gave no question up.
-/

namespace AnySpans.Documents.Registry

variable {r r' : Registry} {k : Key} {token : Token}

/-- What is cancelled stays cancelled. -/
theorem Change.isCancelled {ends : Bool} (h : r.Change k ends r')
    (hc : r.isCancelled token = true) : r'.isCancelled token = true := by
  cases h with
  | edited | ended =>
    rw [isCancelled_cons, hc]
    exact Bool.or_true _
  | _ => exact hc

end AnySpans.Documents.Registry

namespace AnySpans.Passes

open AnySpans.Documents AnySpans.Settings AnySpans.Syntax AnySpans.Text

/-! ### Which steps of a pass are possible -/

/-- At a moment a pass begins. -/
structure Moment.Begins (m : Moment) (p : Nat) (r : Request) : Prop where
  event : m.event = .begun p
  ready : m.world.passes[p]? = some (.ready r)

namespace World

/-- A pass can neither put a question nor take an answer. -/
def Silent (w : World) (p : Nat) : Prop :=
  w.step? (.asked p) = none ∧ ∀ number a, w.step? (.answered p number a) = none

/-- A pass puts its next question whenever there is room, takes the answers to all open questions,
and can give none up. -/
structure Unhindered (w : World) (p : Nat) (k : Work) : Prop where
  asks : (w.step? (.asked p)).isSome = k.fan.ask?.isSome
  answers : ∀ number a,
    (w.step? (.answered p number a)).isSome = (k.fan.answer? number a).isSome
  keeps : w.step? (.skipped p) = none ∧ ∀ number, w.step? (.dropped p number) = none

variable {w w' : World} {e : Event} {p : Nat} {k : Work} {r : Request} {q : Query} {fan : Fanout}

theorem step?_begun (hp : w.passes[p]? = some (.ready r)) : w.step? (.begun p) =
    some ({ w with analyzer := (w.analyzer.beginPass r).1 }.setStage p
      (w.analyzer.beginPass r).2) := by
  simp only [step?, hp]

theorem step?_asked (hp : w.passes[p]? = some (.asking k)) (hc : w.isCancelled k = false) :
    w.step? (.asked p) = k.fan.ask?.map fun (q, fan) =>
      { w.setStage p (.asking { k with fan }) with
        asked := ⟨p, k.request.document, q.candidate.position⟩ :: w.asked } := by
  simp only [step?, asking?_eq_some_iff.2 hp, hc, Option.bind_eq_bind, Option.bind_some]
  cases k.fan.ask? <;> rfl

theorem step?_skipped (hp : w.passes[p]? = some (.asking k)) (hc : w.isCancelled k = true) :
    w.step? (.skipped p) =
      k.fan.skip?.map fun fan => w.setStage p (.asking { k with fan }) := by
  simp only [step?, asking?_eq_some_iff.2 hp, hc, Option.bind_eq_bind, Option.bind_some]
  cases k.fan.skip? <;> rfl

theorem step?_answered (hp : w.passes[p]? = some (.asking k)) (hc : w.isCancelled k = false)
    (number : Nat) (a : Answer) : w.step? (.answered p number a) =
      (k.fan.answer? number a).map fun fan => w.setStage p (.asking { k with fan }) := by
  simp only [step?, asking?_eq_some_iff.2 hp, hc, Option.bind_eq_bind, Option.bind_some]
  cases k.fan.answer? number a <;> rfl

theorem step?_dropped (hp : w.passes[p]? = some (.asking k)) (hc : w.isCancelled k = true)
    (number : Nat) : w.step? (.dropped p number) =
      (k.fan.answer? number none).map fun fan => w.setStage p (.asking { k with fan }) := by
  simp only [step?, asking?_eq_some_iff.2 hp, hc, Option.bind_eq_bind, Option.bind_some]
  cases k.fan.answer? number none <;> rfl

theorem step?_finished (hp : w.passes[p]? = some (.asking k)) (hd : k.fan.isDone = true) :
    w.step? (.finished p) =
      some ({ w with analyzer := (w.analyzer.finishPass k).1 }.setStage p
        (.done k.request (.outcome (w.analyzer.finishPass k).2))) := by
  simp only [step?, asking?_eq_some_iff.2 hp, hd, Option.bind_eq_bind, Option.bind_some]
  rfl

theorem silent_of_cancelled (hp : w.passes[p]? = some (.asking k)) (hc : w.isCancelled k = true) :
    w.Silent p := by
  simp [Silent, step?, asking?_eq_some_iff.2 hp, hc]

theorem silent_of_done {o : Ending} (hp : w.passes[p]? = some (.done r o)) : w.Silent p := by
  have hnone : w.asking? p = none := by rw [asking?, hp]
  simp [Silent, step?, hnone]

theorem unhindered (hp : w.passes[p]? = some (.asking k)) (hc : w.isCancelled k = false) :
    w.Unhindered p k where
  asks := by rw [step?_asked hp hc, Option.isSome_map]
  answers number a := by rw [step?_answered hp hc, Option.isSome_map]
  keeps := by simp [step?, asking?_eq_some_iff.2 hp, hc]

/-! ### Cancelled passes -/

theorem Steps.isCancelled (hs : w.Steps e w') (hc : w.isCancelled k = true) :
    w'.isCancelled k = true := by
  obtain ⟨j, ends, hchange⟩ := hs.change
  exact hchange.isCancelled hc

/-- A pass was cancelled: it asks and is cancelled, or it is stale. -/
inductive Parted (w : World) (p : Nat) : Prop
  | cancelled {k : Work} : w.passes[p]? = some (.asking k) → w.isCancelled k = true → Parted w p
  | stale {r : Request} : w.passes[p]? = some (.done r (.outcome .stale)) → Parted w p

/-- What a pass that was cancelled keeps cannot be kept any more. -/
theorem Ordered.commit?_eq_none (ho : w.Ordered) (hp : w.passes[p]? = some (.asking k))
    (hc : w.isCancelled k = true) (hits : List Range) :
    w.analyzer.registry.commit? k.ticket k.request.visible hits = none := by
  have hcurrent := ho.isCurrent_eq hp
  rwa [hc, Bool.not_true, ← Registry.commit?_isSome k.request.visible hits,
    Option.isSome_eq_false_iff, Option.isNone_iff_eq_none] at hcurrent

theorem Parted.step (h : w.Parted p) (ho : w.Ordered) (hs : w.Steps e w') : w'.Parted p := by
  cases h with
  | cancelled hp hc =>
    obtain ⟨s, hs', hbecomes⟩ := hs.becomes hp
    cases hbecomes with
    | same | moved => exact .cancelled hs' (hs.isCancelled hc)
    | stale => exact .stale hs'
    | committed hcommit => cases (ho.commit?_eq_none hp hc _).symm.trans hcommit
  | stale hp =>
    obtain ⟨s, hs', hbecomes⟩ := hs.becomes hp
    cases hbecomes
    exact .stale hs'

end World

/-! ### Who is held up -/

section

variable {R : Readers} {c : Config} {w start : World} {before between ms : List Moment}
  {m₀ : Moment} {p candidates hits : Nat} {r : Request}

/-- From the moment at which the document of a pass is edited or closed the pass neither asks nor
takes an answer; until then it is not held up. -/
theorem History.held_up (h : History (.reading R c) (before ++ m₀ :: between) w)
    (hm : m₀.Begins p r) : ((∃ m ∈ between, m.Ends r.key) → w.Silent p) ∧
      ((∀ m ∈ between, ¬ m.Ends r.key) → ∀ k, w.passes[p]? = some (.asking k) →
        w.Unhindered p k) := by
  obtain ⟨w₁, hbefore, -, hs, hafter⟩ := h.split
  have ho := hbefore.ordered
  have ho' := ho.step hs
  obtain ⟨w₀, e⟩ := m₀
  obtain ⟨rfl, hready⟩ : e = .begun p ∧ w₀.passes[p]? = some (.ready r) := ⟨hm.event, hm.ready⟩
  cases hs with
  | @begun _ r' a s hi hb =>
    obtain rfl := Stage.ready.inj (Option.some.inj (hi.symm.trans hready))
    have hself : (w₀.passes.set p s)[p]? = some s := World.getElem?_set_self hi s
    obtain ⟨k, rfl, rfl⟩ | ⟨o, rfl, -⟩ := hb.stage
    · obtain ⟨-, hkey, -⟩ := hb.holds
      have hholds := hb.holds_after ho.sound
      rw [← hkey]
      obtain ⟨fan, hfan⟩ | ⟨o, -, hdone⟩ := hafter.asking hself
      · obtain ⟨hends, hlapsed⟩ | ⟨hnone, hholds⟩ := hafter.ticket ho' hholds
        · obtain ⟨m, hm, hends⟩ := hends
          exact ⟨fun _ => World.silent_of_cancelled hfan hlapsed.cancelled,
            fun hnone => absurd hends (hnone m hm)⟩
        · refine ⟨fun ⟨m, hm, hends⟩ => absurd hends (hnone m hm), fun _ k' hk' => ?_⟩
          obtain rfl := Stage.asking.inj (Option.some.inj (hfan.symm.trans hk'))
          exact World.unhindered hfan
            (hholds.not_cancelled (ho'.history hafter).sound)
      · refine ⟨fun _ => World.silent_of_done hdone, fun _ k' hk' => ?_⟩
        cases hdone.symm.trans hk'
    · have hdone := hafter.done hself
      refine ⟨fun _ => World.silent_of_done hdone, fun _ k' hk' => ?_⟩
      cases hdone.symm.trans hk'

theorem World.Parted.history (hp : start.Parted p) (ho : start.Ordered) (h : History start ms w) :
    w.Parted p := by
  induction h with
  | start => exact hp
  | step h hs ih => exact ih.step (ho.history h) (World.steps_of_step? hs)

theorem World.Parted.not_committed (h : w.Parted p)
    (hp : w.passes[p]? = some (.done r (.outcome (.committed candidates hits)))) : False := by
  cases h with
  | cancelled hk => cases hk.symm.trans hp
  | stale hs => cases hs.symm.trans hp

/-- A pass that keeps its results gave none of its questions up. -/
theorem History.not_given_up (h : History (.reading R c) ms w)
    (hp : w.passes[p]? = some (.done r (.outcome (.committed candidates hits)))) {m : Moment}
    (hm : m ∈ ms) : m.event ≠ .skipped p ∧ ∀ number, m.event ≠ .dropped p number := by
  obtain ⟨before, after, rfl⟩ := List.append_of_mem hm
  obtain ⟨w', hbefore, -, hs, hafter⟩ := h.split
  have ho' := hbefore.ordered.step hs
  obtain ⟨w₀, e⟩ := m
  have hgave : w'.Parted p → False := fun hparted => (hparted.history ho' hafter).not_committed hp
  constructor
  · rintro rfl
    cases hs with
    | skipped hi hc => exact hgave (.cancelled (World.getElem?_set_self hi _) hc)
  · rintro number rfl
    cases hs with
    | dropped hi hc => exact hgave (.cancelled (World.getElem?_set_self hi _) hc)

end

end AnySpans.Passes
