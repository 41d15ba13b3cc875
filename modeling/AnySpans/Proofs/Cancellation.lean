import AnySpans.Proofs.Cancelled

/-!
# Cancellation

A pass that was cancelled is stale in the end, so it makes no difference what its questions came to.
A world whose passes ask on regardless of cancellation (`World.stepRegardless?`) goes the same way as
one whose passes do not (`cancellation_only_spares_questions`).  The two are kept side by side
(`Agree`): a pass that is not cancelled makes the same steps in both; one that is catches up in one go
before it is finished (`World.exists_run_regardless`, `World.exists_run_cancelled`).
-/

namespace AnySpans.Passes

open AnySpans.Documents AnySpans.Settings AnySpans.Syntax AnySpans.Text

/-! ### Asking regardless -/

/-- Whether an event is none of the questions of a pass. -/
def Event.isShared : Event → Bool
  | .asked _ | .skipped _ | .answered _ _ _ | .dropped _ _ => false
  | _ => true

/-- Whether an event is a step of a pass. -/
def Event.isOf (p : Nat) (e : Event) : Bool := e.pass? == some p

/-- A pass puts a question or settles one, with an answer that the oracle gives. -/
inductive Event.Asks (oracle : Nat → Nat → Answer → Prop) (p : Nat) : Event → Prop
  | asked : Asks oracle p (.asked p)
  | skipped : Asks oracle p (.skipped p)
  | answered {number : Nat} {a : Answer} : oracle p number a → Asks oracle p (.answered p number a)
  | dropped {number : Nat} : Asks oracle p (.dropped p number)

/-- All answers are some that the oracle gives to the question of the pass. -/
def Obeys (oracle : Nat → Nat → Answer → Prop) (es : List Event) : Prop :=
  ∀ p number a, .answered p number a ∈ es → oracle p number a

namespace World

/-- The world after an event if passes ask on and take answers regardless of cancellation; none if the
event is not possible. -/
def stepRegardless? (w : World) : Event → Option World
  | .asked p => do
    let k ← w.asking? p
    let (q, fan) ← k.fan.ask?
    return { w.setStage p (.asking { k with fan }) with
      asked := ⟨p, k.request.document, q.candidate.position⟩ :: w.asked }
  | .answered p number a => do
    let k ← w.asking? p
    return w.setStage p (.asking { k with fan := ← k.fan.answer? number a })
  | .skipped _ | .dropped _ _ => none
  | e => w.step? e

variable {w w' u u' : World} {e : Event} {es xs : List Event} {p i : Nat} {k : Work} {r : Request}
  {q : Query} {fan : Fanout} {s s' : Stage}

theorem stepRegardless?_asked (hp : w.passes[p]? = some (.asking k)) :
    w.stepRegardless? (.asked p) = k.fan.ask?.map fun (q, fan) =>
      { w.setStage p (.asking { k with fan }) with
        asked := ⟨p, k.request.document, q.candidate.position⟩ :: w.asked } := by
  simp only [stepRegardless?, asking?_eq_some_iff.2 hp, Option.bind_eq_bind, Option.bind_some]
  cases k.fan.ask? <;> rfl

theorem stepRegardless?_answered (hp : w.passes[p]? = some (.asking k)) (number : Nat)
    (a : Answer) : w.stepRegardless? (.answered p number a) =
      (k.fan.answer? number a).map fun fan => w.setStage p (.asking { k with fan }) := by
  simp only [stepRegardless?, asking?_eq_some_iff.2 hp, Option.bind_eq_bind, Option.bind_some]
  cases k.fan.answer? number a <;> rfl

/-! ### Steps of one pass -/

/-- A world differs from another one in one of its passes at most. -/
structure Beside (w w' : World) (p : Nat) : Prop where
  length : w'.passes.length = w.passes.length
  stage : ∀ i, i ≠ p → w'.passes[i]? = w.passes[i]?

theorem Beside.refl (w : World) (p : Nat) : w.Beside w p := ⟨rfl, fun _ _ => rfl⟩

theorem Beside.trans {w'' : World} (h : w.Beside w' p) (h' : w'.Beside w'' p) : w.Beside w'' p :=
  ⟨h'.length.trans h.length, fun i hi => (h'.stage i hi).trans (h.stage i hi)⟩

theorem beside_set (h : w'.passes = w.passes.set p s) : w.Beside w' p where
  length := by rw [h, List.length_set]
  stage i hi := by rw [h, List.getElem?_set_ne hi.symm]

/-- Two worlds make a step by which a pass comes to the same stage in both. -/
structure Both (w u w' u' : World) (p : Nat) : Prop where
  left : w.Beside w' p
  right : u.Beside u' p
  analyzer : u'.analyzer = w'.analyzer
  stage : u'.passes[p]? = w'.passes[p]?
  asked : w.asked.Sublist u.asked → w'.asked.Sublist u'.asked

theorem both_set (hp : w.passes[p]? = some s) (hu : u.passes[p]? = some s) {a a' : Analyzer}
    (ha : a' = a) {l l' : List Asked} (hl : w.asked.Sublist u.asked → l.Sublist l') :
    w.Both u ⟨a, w.passes.set p s', l⟩ ⟨a', u.passes.set p s', l'⟩ p where
  left := beside_set rfl
  right := beside_set rfl
  analyzer := ha
  stage := (getElem?_set_self hu s').trans (getElem?_set_self hp s').symm
  asked := hl

/-- What a pass that is not cancelled can do does not depend on whether passes ask on regardless. -/
theorem step?_of_same (ha : u.analyzer = w.analyzer) (hsame : u.passes[p]? = w.passes[p]?)
    (hlive : ∀ k, w.passes[p]? = some (.asking k) → w.isCancelled k = false)
    (he : e.pass? = some p) : w.step? e = none ∧ u.stepRegardless? e = none ∨
      ∃ w' u', w.step? e = some w' ∧ u.stepRegardless? e = some u' ∧ w.Both u w' u' p := by
  have hasking : u.asking? p = w.asking? p := by rw [asking?, asking?, hsame]
  cases e with
  | begun i =>
    obtain rfl := Option.some.inj he
    by_cases hr : ∃ r, w.passes[i]? = some (.ready r)
    · obtain ⟨r, hr⟩ := hr
      refine .inr ⟨_, _, step?_begun hr, step?_begun (hsame.trans hr), ?_⟩
      rw [ha]
      exact both_set hr (hsame.trans hr) rfl id
    · have hnone : ∀ v : World, v.passes[i]? = w.passes[i]? → v.step? (.begun i) = none := by
        intro v hv
        rw [step?, hv]
        split
        · exact absurd ⟨_, ‹_›⟩ hr
        · rfl
      exact .inl ⟨hnone w rfl, hnone u hsame⟩
  | asked i =>
    obtain rfl := Option.some.inj he
    cases hk : w.asking? i with
    | none => exact .inl (by simp [step?, stepRegardless?, hasking, hk])
    | some k =>
      have hp := asking?_eq_some_iff.1 hk
      rw [step?_asked hp (hlive k hp), stepRegardless?_asked (hsame.trans hp)]
      cases k.fan.ask? with
      | none => exact .inl ⟨rfl, rfl⟩
      | some qf =>
        exact .inr ⟨_, _, rfl, rfl, both_set hp (hsame.trans hp) ha fun h => h.cons_cons _⟩
  | answered i number a =>
    obtain rfl := Option.some.inj he
    cases hk : w.asking? i with
    | none => exact .inl (by simp [step?, stepRegardless?, hasking, hk])
    | some k =>
      have hp := asking?_eq_some_iff.1 hk
      rw [step?_answered hp (hlive k hp), stepRegardless?_answered (hsame.trans hp)]
      cases k.fan.answer? number a with
      | none => exact .inl ⟨rfl, rfl⟩
      | some fan => exact .inr ⟨_, _, rfl, rfl, both_set hp (hsame.trans hp) ha id⟩
  | skipped i | dropped i =>
    obtain rfl := Option.some.inj he
    refine .inl ⟨?_, rfl⟩
    cases hk : w.asking? i with
    | none => simp [step?, hk]
    | some k => simp [step?, hk, hlive k (asking?_eq_some_iff.1 hk)]
  | finished i =>
    obtain rfl := Option.some.inj he
    cases hk : w.asking? i with
    | none => exact .inl (by simp [step?, stepRegardless?, hasking, hk])
    | some k =>
      have hp := asking?_eq_some_iff.1 hk
      cases hd : k.fan.isDone with
      | false => exact .inl (by simp [step?, stepRegardless?, hasking, hk, hd])
      | true =>
        refine .inr ⟨_, _, step?_finished hp hd, step?_finished (hsame.trans hp) hd, ?_⟩
        rw [ha]
        exact both_set hp (hsame.trans hp) rfl id
  | _ => cases he

/-- What happens to the documents does not depend on the passes. -/
theorem step?_of_pass?_eq_none (he : e.pass? = none) :
    (∃ f, ∀ v : World, v.step? e = some (v.change f) ∧ v.stepRegardless? e = some (v.change f)) ∨
      ∃ r, e = .spawned r := by
  cases e with
  | spawned r => exact .inr ⟨r, rfl⟩
  | opened | closed | edited | errors | configured => exact .inl ⟨_, fun _ => ⟨rfl, rfl⟩⟩
  | _ => cases he

/-! ### Questions that come to an end -/

/-- A pass that can always settle a question settles all of them. -/
theorem exists_settled {step : World → Event → Option World} {ok : Event → Prop}
    {P : World → Work → Prop} (hstep : ∀ v k, P v k → k.fan.isDone = false →
      ∃ e v' k', ok e ∧ step v e = some v' ∧ k'.fan.load < k.fan.load ∧ P v' k') (h : P w k) :
    ∃ (xs : List Event) (w' : World) (k' : Work), (∀ e ∈ xs, ok e) ∧ xs.foldlM step w = some w' ∧
      k'.fan.isDone = true ∧ P w' k' := by
  induction hload : k.fan.load using Nat.strong_induction_on generalizing w k with
  | _ n ih =>
    cases hd : k.fan.isDone with
    | true => exact ⟨[], w, k, fun _ he => absurd he List.not_mem_nil, rfl, hd, h⟩
    | false =>
      obtain ⟨e, v, k', he, hs, hlt, hP⟩ := hstep w k h hd
      obtain ⟨xs, w', k'', hxs, hrun, hdone, hP'⟩ := ih k'.fan.load (hload ▸ hlt) hP rfl
      refine ⟨e :: xs, w', k'', List.forall_mem_cons.2 ⟨he, hxs⟩, ?_, hdone, hP'⟩
      rw [List.foldlM_cons, hs]
      exact hrun

/-- A pass comes further with its questions; but for the record of the questions nothing else
changes. -/
structure Onward (w : World) (p : Nat) (k : Work) (w' : World) (k' : Work) : Prop where
  analyzer : w'.analyzer = w.analyzer
  beside : w.Beside w' p
  stage : w'.passes[p]? = some (.asking k')
  work : k' = { k with fan := k'.fan }

namespace Onward

variable {k' : Work}

theorem refl (hp : w.passes[p]? = some (.asking k)) : w.Onward p k w k :=
  ⟨rfl, .refl w p, hp, rfl⟩

theorem set (h : w.Onward p k w' k') (fan : Fanout) (l : List Asked) :
    w.Onward p k ⟨w'.analyzer, w'.passes.set p (.asking { k' with fan }), l⟩ { k' with fan } where
  analyzer := h.analyzer
  beside := h.beside.trans (beside_set rfl)
  stage := getElem?_set_self h.stage _
  work := by rw [h.work]

theorem isCancelled_eq (h : w.Onward p k w' k') : w'.isCancelled k' = w.isCancelled k := by
  rw [isCancelled, h.analyzer, h.work, isCancelled]

end Onward

variable {oracle : Nat → Nat → Answer → Prop}

/-- A pass that asks on regardless comes to the end of its questions, whatever the oracle answers. -/
theorem exists_run_regardless (total : ∀ p number, ∃ a, oracle p number a)
    (hp : w.passes[p]? = some (.asking k)) (hroom : 0 < k.fan.limit) :
    ∃ (xs : List Event) (w' : World) (k' : Work), (∀ e ∈ xs, e.Asks oracle p) ∧
      xs.foldlM stepRegardless? w = some w' ∧ k'.fan.isDone = true ∧
      w.Onward p k w' k' ∧ w.asked.Sublist w'.asked ∧ 0 < k'.fan.limit := by
  refine exists_settled (fun v k' ⟨hon, hasked, hroom⟩ hd => ?_) ⟨.refl hp, .refl _, hroom⟩
  obtain ⟨number, hanswer⟩ | ⟨hr, q, qs, hw⟩ := Fanout.exists_of_not_done hd
  · obtain ⟨a, ha⟩ := total p number
    obtain ⟨fan, hfan⟩ := hanswer a
    exact ⟨.answered p number a, _, { k' with fan }, .answered ha,
      (stepRegardless?_answered hon.stage number a).trans (congrArg (Option.map _) hfan),
      Fanout.load_answer? hfan, hon.set fan v.asked, hasked,
      (Fanout.limit_answer? hfan).symm ▸ hroom⟩
  · obtain ⟨fan, hfan⟩ : ∃ fan, k'.fan.ask? = some (q, fan) := by
      rw [Fanout.ask?, hw, hr]
      exact ⟨_, if_pos hroom⟩
    obtain ⟨-, -, -, -, hlimit⟩ := Fanout.ask?_eq_some hfan
    exact ⟨.asked p, _, { k' with fan }, .asked,
      (stepRegardless?_asked hon.stage).trans (congrArg (Option.map _) hfan), Fanout.load_ask? hfan,
      hon.set fan _, hasked.cons _, hlimit.symm ▸ hroom⟩

/-- A pass that is cancelled comes to the end of its questions without asking. -/
theorem exists_run_cancelled (oracle : Nat → Nat → Answer → Prop)
    (hp : w.passes[p]? = some (.asking k)) (hc : w.isCancelled k = true) :
    ∃ (xs : List Event) (w' : World) (k' : Work), (∀ e ∈ xs, e.Asks oracle p) ∧
      xs.foldlM step? w = some w' ∧ k'.fan.isDone = true ∧
      w.Onward p k w' k' ∧ w'.asked = w.asked := by
  refine exists_settled (fun v k' ⟨hon, hasked⟩ hd => ?_) ⟨.refl hp, rfl⟩
  have hc' : v.isCancelled k' = true := hon.isCancelled_eq.trans hc
  obtain ⟨number, hanswer⟩ | ⟨-, q, qs, hw⟩ := Fanout.exists_of_not_done hd
  · obtain ⟨fan, hfan⟩ := hanswer none
    exact ⟨.dropped p number, _, { k' with fan }, .dropped,
      (step?_dropped hon.stage hc' number).trans (congrArg (Option.map _) hfan),
      Fanout.load_answer? hfan, hon.set fan v.asked, hasked⟩
  · obtain ⟨fan, hfan⟩ : ∃ fan, k'.fan.skip? = some fan := by
      rw [Fanout.skip?, hw]
      exact ⟨_, rfl⟩
    exact ⟨.skipped p, _, { k' with fan }, .skipped,
      (step?_skipped hon.stage hc').trans (congrArg (Option.map _) hfan), Fanout.load_skip? hfan,
      hon.set fan v.asked, hasked⟩

/-! ### Worlds side by side -/

/-- A pass is at the same stage in a world and in one where passes ask on regardless, or it is
cancelled and not yet finished in either. -/
inductive Level (w : World) : Option Stage → Option Stage → Prop
  | same (s : Option Stage) : Level w s s
  | parted {k : Work} {fan : Fanout} : w.isCancelled k = true → 0 < fan.limit →
    Level w (some (.asking k)) (some (.asking { k with fan }))

end World

/-- A run and one where passes ask on regardless agree but for the questions of passes that were
cancelled. -/
structure Agree (es : List Event) (w : World) (es' : List Event) (u : World) : Prop where
  /-- The documents, what was found in them, and what was shown. -/
  analyzer : u.analyzer = w.analyzer
  length : u.passes.length = w.passes.length
  stages : ∀ p : Nat, w.Level w.passes[p]? u.passes[p]?
  asked : w.asked.Sublist u.asked
  shared : es'.filter Event.isShared = es.filter Event.isShared
  own : ∀ p, ¬ w.Parted p → es'.filter (Event.isOf p) = es.filter (Event.isOf p)

section

variable {oracle : Nat → Nat → Answer → Prop} {w w' u u' : World} {es es' xs ys : List Event}
  {e : Event} {p : Nat} {k : Work}

theorem World.Level.mono {s s' : Option Stage} (h : w.Level s s')
    (hc : ∀ k, w.isCancelled k = true → w'.isCancelled k = true) : w'.Level s s' := by
  cases h with
  | same => exact .same s
  | parted hk hroom => exact .parted (hc _ hk) hroom

theorem agree_reading (R : Readers) (c : Config) :
    Agree [] (.reading R c) [] (.reading R c) where
  analyzer := rfl
  length := rfl
  stages _ := .same _
  asked := .refl _
  shared := rfl
  own _ _ := rfl

/-- A pass that was not cancelled is at the same stage. -/
theorem Agree.same (h : Agree es w es' u)
    (hlive : ∀ k, w.passes[p]? = some (.asking k) → w.isCancelled k = false) :
    u.passes[p]? = w.passes[p]? := by
  have hlevel := h.stages p
  generalize hw : w.passes[p]? = s, u.passes[p]? = s' at hlevel ⊢
  cases hlevel with
  | same => rfl
  | parted hc => cases (hlive _ hw).symm.trans hc

/-- A pass that is cancelled asks in both worlds. -/
theorem Agree.parted (h : Agree es w es' u) (hp : w.passes[p]? = some (.asking k))
    (hroom : 0 < k.fan.limit) :
    ∃ fan, u.passes[p]? = some (.asking { k with fan }) ∧ 0 < fan.limit := by
  have hlevel := h.stages p
  rw [hp] at hlevel
  generalize u.passes[p]? = s at hlevel ⊢
  cases hlevel with
  | same => exact ⟨k.fan, rfl, hroom⟩
  | parted _ hfan => exact ⟨_, rfl, hfan⟩

/-- Both runs go on, and only passes that were cancelled make different steps. -/
theorem Agree.append (h : Agree es w es' u) (ha : u'.analyzer = w'.analyzer)
    (hlength : u'.passes.length = w'.passes.length)
    (hstages : ∀ p : Nat, w'.Level w'.passes[p]? u'.passes[p]?) (hasked : w'.asked.Sublist u'.asked)
    (hparted : ∀ p, w.Parted p → w'.Parted p)
    (hshared : ys.filter Event.isShared = xs.filter Event.isShared)
    (hown : ∀ p, ¬ w'.Parted p → ys.filter (Event.isOf p) = xs.filter (Event.isOf p)) :
    Agree (es ++ xs) w' (es' ++ ys) u' where
  analyzer := ha
  length := hlength
  stages := hstages
  asked := hasked
  shared := by rw [List.filter_append, List.filter_append, h.shared, hshared]
  own p hp := by
    rw [List.filter_append, List.filter_append, h.own p fun hw => hp (hparted p hw), hown p hp]

/-- Both worlds make the same step. -/
theorem Agree.both (h : Agree es w es' u) (hb : w.Both u w' u' p) (hs : w.Steps e w')
    (ho : w.Ordered) : Agree (es ++ [e]) w' (es' ++ [e]) u' := by
  refine h.append hb.analyzer (hb.right.length.trans (h.length.trans hb.left.length.symm))
    (fun i => ?_) (hb.asked h.asked) (fun i hi => hi.step ho hs) rfl fun _ _ => rfl
  by_cases hi : i = p
  · rw [hi, hb.stage]
    exact .same _
  · rw [hb.left.stage i hi, hb.right.stage i hi]
    exact (h.stages i).mono fun k => hs.isCancelled

theorem Event.Asks.filter_eq_nil (hxs : ∀ e ∈ xs, e.Asks oracle p) :
    xs.filter Event.isShared = [] ∧ ∀ i, i ≠ p → xs.filter (Event.isOf i) = [] := by
  simp only [List.filter_eq_nil_iff]
  refine ⟨fun e he => ?_, fun i hi e he => ?_⟩
  · cases hxs e he <;> exact Bool.false_ne_true
  · cases hxs e he <;> simpa [Event.isOf, Event.pass?] using hi.symm

theorem Event.Asks.obeys (hxs : ∀ e ∈ xs, e.Asks oracle p) : Obeys oracle xs := by
  intro i number a he
  cases hxs _ he
  assumption

/-- A pass that is cancelled goes on with its questions, in one of the worlds or in both. -/
theorem Agree.apart (h : Agree es w es' u) (hw : w.Beside w' p) (hwa : w'.analyzer = w.analyzer)
    (hu : u.Beside u' p) (hua : u'.analyzer = u.analyzer) {fan : Fanout}
    (hp : w'.passes[p]? = some (.asking k)) (hc : w'.isCancelled k = true)
    (hp' : u'.passes[p]? = some (.asking { k with fan })) (hroom : 0 < fan.limit)
    (hasked : w'.asked.Sublist u'.asked) (hxs : ∀ e ∈ xs, e.Asks oracle p)
    (hys : ∀ e ∈ ys, e.Asks oracle p) : Agree (es ++ xs) w' (es' ++ ys) u' := by
  have hcancelled : ∀ k, w'.isCancelled k = w.isCancelled k := fun k => by
    rw [World.isCancelled, hwa, World.isCancelled]
  obtain ⟨hxshared, hxown⟩ := Event.Asks.filter_eq_nil hxs
  obtain ⟨hyshared, hyown⟩ := Event.Asks.filter_eq_nil hys
  refine h.append (hua.trans (h.analyzer.trans hwa.symm))
    (hu.length.trans (h.length.trans hw.length.symm)) (fun i => ?_) hasked (fun i hi => ?_)
    (hyshared.trans hxshared.symm) fun i hi => ?_
  · by_cases hip : i = p
    · rw [hip, hp, hp']
      exact .parted hc hroom
    · rw [hw.stage i hip, hu.stage i hip]
      exact (h.stages i).mono fun k hk => (hcancelled k).trans hk
  · by_cases hip : i = p
    · exact hip ▸ .cancelled hp hc
    · cases hi with
      | cancelled hk hck => exact .cancelled ((hw.stage i hip).trans hk) ((hcancelled _).trans hck)
      | stale hs => exact .stale ((hw.stage i hip).trans hs)
  · have hip : i ≠ p := fun hip => hi (hip ▸ .cancelled hp hc)
    exact (hyown i hip).trans (hxown i hip).symm

/-! ### Either run follows the other -/

/-- All passes may have a question open. -/
def World.Roomy (w : World) : Prop :=
  ∀ (p : Nat) (k : Work), w.passes[p]? = some (.asking k) → 0 < k.fan.limit

theorem World.Roomy.step (h : w.Roomy) (hs : w.Steps e w') : w'.Roomy := by
  intro p k hk
  obtain ⟨-, r, -, hb⟩ | ⟨k', hk', -, hmoves⟩ := hs.asking_before hk
  · obtain ⟨d, t, lines, token, kept, tree, -, -, hbegin, -⟩ := hb.exists_plan
    obtain ⟨f, hf⟩ | ⟨cs, -, hcs⟩ := w.analyzer.beginAsking_cases r t token lines tree
    · cases hf.symm.trans hbegin
    · obtain rfl := Stage.asking.inj (hcs.symm.trans hbegin)
      exact Nat.lt_of_lt_of_le Nat.zero_lt_one (Nat.le_max_right _ 1)
  · have hroom := h p k' hk'
    generalize k.fan = fan at hmoves ⊢
    cases hmoves with
    | same => exact hroom
    | asked _ hf =>
      obtain ⟨-, -, -, -, hlimit⟩ := Fanout.ask?_eq_some hf
      exact hlimit ▸ hroom
    | skipped _ hf =>
      obtain ⟨-, -, hlimit⟩ := Fanout.skip?_eq_some hf
      exact hlimit ▸ hroom
    | answered _ hf | dropped _ hf => exact (Fanout.limit_answer? hf).symm ▸ hroom

/-- A pass that is cancelled is stale in the end. -/
theorem World.step?_finished_of_none (hp : w.passes[p]? = some (.asking k))
    (hd : k.fan.isDone = true)
    (hnone : w.analyzer.registry.commit? k.ticket k.request.visible k.fan.hits = none) :
    w.step? (.finished p) = some (w.setStage p (.done k.request (.outcome .stale))) := by
  rw [step?_finished hp hd, Analyzer.finishPass, hnone]

/-- Worlds that agree after a cancelled pass has come to the end of its questions in both agree when it
is finished. -/
theorem Agree.finished (h : Agree es w es' u) (ho : w.Ordered) {fan : Fanout}
    (hp : w.passes[p]? = some (.asking k)) (hc : w.isCancelled k = true)
    (hd : k.fan.isDone = true) (hp' : u.passes[p]? = some (.asking { k with fan }))
    (hd' : fan.isDone = true) : ∃ w' u', w.step? (.finished p) = some w' ∧
      u.stepRegardless? (.finished p) = some u' ∧
      Agree (es ++ [.finished p]) w' (es' ++ [.finished p]) u' := by
  have hnone := ho.commit?_eq_none hp hc
  have hs := World.step?_finished_of_none hp hd (hnone _)
  have hb : w.Both u (w.setStage p (.done k.request (.outcome .stale)))
      (u.setStage p (.done k.request (.outcome .stale))) p :=
    ⟨World.beside_set rfl, World.beside_set rfl, h.analyzer,
      (World.getElem?_set_self hp' _).trans (World.getElem?_set_self hp _).symm, id⟩
  exact ⟨_, _, hs, World.step?_finished_of_none hp' hd' (h.analyzer ▸ hnone fan.hits),
    h.both hb (World.steps_of_step? hs) ho⟩

/-- What happens apart from the steps of passes happens in both worlds. -/
theorem Agree.aside (h : Agree es w es' u) (ho : w.Ordered) (he : e.pass? = none) :
    ∃ w' u', w.step? e = some w' ∧ u.stepRegardless? e = some u' ∧
      Agree (es ++ [e]) w' (es' ++ [e]) u' := by
  obtain ⟨f, hf⟩ | ⟨r, rfl⟩ := World.step?_of_pass?_eq_none he
  · have hs := World.steps_of_step? (hf w).1
    exact ⟨_, _, (hf w).1, (hf u).2, h.append (congrArg f h.analyzer) h.length
      (fun i => (h.stages i).mono fun k => hs.isCancelled) h.asked (fun i hi => hi.step ho hs) rfl
      fun _ _ => rfl⟩
  · have hs : w.step? (.spawned r) = some { w with passes := w.passes ++ [.ready r] } := rfl
    have hsteps := World.steps_of_step? hs
    refine ⟨_, _, hs, rfl, h.append h.analyzer ?_ (fun i => ?_) h.asked
      (fun i hi => hi.step ho hsteps) rfl fun _ _ => rfl⟩
    · simp only [List.length_append, h.length]
    · simp only [List.getElem?_append, h.length]
      split
      · exact (h.stages i).mono fun k => hsteps.isCancelled
      · exact .same _

/-- A pass that is cancelled gives its questions up, and is finished after that. -/
theorem World.Steps.of_cancelled (oracle : Nat → Nat → Answer → Prop) (hs : w.Steps e w')
    (he : e.pass? = some p)
    (hk : w.passes[p]? = some (.asking k)) (hc : w.isCancelled k = true) :
    (e.Asks oracle p ∧ ∃ fan, w' = w.setStage p (.asking { k with fan })) ∨
      e = .finished p ∧ k.fan.isDone = true := by
  have hwork : ∀ {k' : Work}, w.passes[p]? = some (.asking k') → k' = k :=
    fun hk' => Stage.asking.inj (Option.some.inj (hk'.symm.trans hk))
  cases hs with
  | begun hi =>
    obtain rfl := Option.some.inj he
    cases hi.symm.trans hk
  | asked hi hc' | answered hi hc' =>
    obtain rfl := Option.some.inj he
    obtain rfl := hwork hi
    cases hc'.symm.trans hc
  | @skipped _ _ fan hi =>
    obtain rfl := Option.some.inj he
    obtain rfl := hwork hi
    exact .inl ⟨.skipped, fan, rfl⟩
  | @dropped _ _ _ fan hi =>
    obtain rfl := Option.some.inj he
    obtain rfl := hwork hi
    exact .inl ⟨.dropped, fan, rfl⟩
  | stale hi hd | committed hi hd =>
    obtain rfl := Option.some.inj he
    obtain rfl := hwork hi
    exact .inr ⟨rfl, hd⟩
  | _ => cases he

/-- A pass that asks on regardless settles its questions, and is finished after that. -/
theorem World.of_stepRegardless? (hs : w.stepRegardless? e = some w') (he : e.pass? = some p)
    (hobeys : Obeys oracle [e]) (hk : w.passes[p]? = some (.asking k)) :
    (e.Asks oracle p ∧ ∃ fan, w.Onward p k w' { k with fan } ∧ fan.limit = k.fan.limit ∧
      w.asked.Sublist w'.asked) ∨ e = .finished p ∧ k.fan.isDone = true := by
  have hon := World.Onward.refl hk
  cases e with
  | begun i =>
    obtain rfl := Option.some.inj he
    simp [stepRegardless?, step?, hk] at hs
  | asked i =>
    obtain rfl := Option.some.inj he
    rw [stepRegardless?_asked hk] at hs
    obtain ⟨⟨q, fan⟩, hf, rfl⟩ := Option.map_eq_some_iff.1 hs
    obtain ⟨-, -, -, -, hlimit⟩ := Fanout.ask?_eq_some hf
    exact .inl ⟨.asked, fan, hon.set fan _, hlimit, List.sublist_cons_self _ _⟩
  | answered i number a =>
    obtain rfl := Option.some.inj he
    rw [stepRegardless?_answered hk] at hs
    obtain ⟨fan, hf, rfl⟩ := Option.map_eq_some_iff.1 hs
    exact .inl ⟨.answered (hobeys _ _ _ (List.mem_singleton_self _)), fan, hon.set fan w.asked,
      Fanout.limit_answer? hf, .refl _⟩
  | finished i =>
    obtain rfl := Option.some.inj he
    refine .inr ⟨rfl, ?_⟩
    by_contra hd
    simp [stepRegardless?, step?, asking?_eq_some_iff.2 hk, hd] at hs
  | skipped | dropped => cases hs
  | _ => cases he

theorem Agree.cancelled_or_same (h : Agree es w es' u) (hroom : w.Roomy) (p : Nat) :
    u.passes[p]? = w.passes[p]? ∧
      (∀ k, w.passes[p]? = some (.asking k) → w.isCancelled k = false) ∨
    ∃ k fan, w.passes[p]? = some (.asking k) ∧ w.isCancelled k = true ∧
      u.passes[p]? = some (.asking { k with fan }) ∧ 0 < fan.limit := by
  by_cases hlive : ∀ k, w.passes[p]? = some (.asking k) → w.isCancelled k = false
  · exact .inl ⟨h.same hlive, hlive⟩
  · obtain ⟨k, hk, hc⟩ : ∃ k, w.passes[p]? = some (.asking k) ∧ w.isCancelled k = true := by
      simpa using hlive
    obtain ⟨fan, hfan, hroom'⟩ := h.parted hk (hroom p k hk)
    exact .inr ⟨k, fan, hk, hc, hfan, hroom'⟩

theorem obeys_nil : Obeys oracle [] := fun _ _ _ h => absurd h List.not_mem_nil

theorem Obeys.append (h : Obeys oracle es) (h' : Obeys oracle es') : Obeys oracle (es ++ es') :=
  fun p number a ha => (List.mem_append.1 ha).elim (h p number a) (h' p number a)

theorem Obeys.finished (h : Obeys oracle es) (p : Nat) : Obeys oracle (es ++ [.finished p]) :=
  h.append fun _ _ _ h => by cases List.mem_singleton.1 h

theorem foldlM_one {step : World → Event → Option World} (hs : step w e = some w') :
    [e].foldlM step w = some w' := by
  rw [List.foldlM_cons, hs]
  rfl

theorem foldlM_concat {step : World → Event → Option World} (h : es.foldlM step w = some w')
    (hs : step w' e = some u) : (es ++ [e]).foldlM step w = some u := by
  rw [List.foldlM_append, h]
  exact foldlM_one hs

/-- What each step of a world keeps is kept in a run. -/
theorem of_foldlM_step? {P : World → Prop} (hP : ∀ {v v' e}, P v → v.Steps e v' → P v')
    (hw : P w) (h : es.foldlM World.step? w = some w') : P w' := by
  induction es generalizing w with
  | nil => exact Option.some.inj h ▸ hw
  | cons e es ih =>
    obtain ⟨v, hv, h⟩ := Option.bind_eq_some_iff.1 h
    exact ih (hP hw (World.steps_of_step? hv)) h

/-- A world whose passes ask on regardless can follow each step of one whose passes do not. -/
theorem Agree.exists_regardless (h : Agree es w es' u) (total : ∀ p number, ∃ a, oracle p number a)
    (ho : w.Ordered) (hroom : w.Roomy) (hs : w.step? e = some w') (he : Obeys oracle [e]) :
    ∃ (ys : List Event) (u' : World), ys.foldlM World.stepRegardless? u = some u' ∧
      Obeys oracle ys ∧ Agree (es ++ [e]) w' (es' ++ ys) u' := by
  have hsteps := World.steps_of_step? hs
  cases hp : e.pass? with
  | none =>
    obtain ⟨w₁, u', hs', hu, hagree⟩ := h.aside ho hp
    obtain rfl := Option.some.inj (hs'.symm.trans hs)
    exact ⟨[e], u', foldlM_one hu, he, hagree⟩
  | some p =>
    obtain ⟨hsame, hlive⟩ | ⟨k, fan, hk, hc, hfan, hroom'⟩ := h.cancelled_or_same hroom p
    · obtain ⟨hnone, -⟩ | ⟨w₁, u', hs', hu, hboth⟩ :=
        World.step?_of_same h.analyzer hsame hlive hp
      · cases hnone.symm.trans hs
      · obtain rfl := Option.some.inj (hs'.symm.trans hs)
        exact ⟨[e], u', foldlM_one hu, he, h.both hboth hsteps ho⟩
    · obtain ⟨hasks, fan', rfl⟩ | ⟨rfl, hd⟩ := hsteps.of_cancelled oracle hp hk hc
      · exact ⟨[], u, rfl, obeys_nil,
          h.apart (World.beside_set rfl) rfl (.refl u p) rfl (World.getElem?_set_self hk _) hc hfan
            hroom' h.asked (List.forall_mem_singleton.2 hasks) (List.forall_mem_nil _)⟩
      · -- the other world's pass catches up before it is finished
        obtain ⟨ys, u₁, k', hys, hrun, hdone, hon, hasked, hroom''⟩ :=
          World.exists_run_regardless total hfan hroom'
        have hp' : u₁.passes[p]? = some (.asking { k with fan := k'.fan }) := by
          rw [hon.stage, hon.work]
        have hagree : Agree (es ++ []) w (es' ++ ys) u₁ :=
          h.apart (.refl w p) rfl hon.beside hon.analyzer hk hc hp' hroom''
            (h.asked.trans hasked) (List.forall_mem_nil _) hys
        rw [List.append_nil] at hagree
        obtain ⟨w₁, u', hs', hu, hagree⟩ := hagree.finished ho hk hc hd hp' hdone
        obtain rfl := Option.some.inj (hs'.symm.trans hs)
        exact ⟨ys ++ [.finished p], u', foldlM_concat hrun hu, (Event.Asks.obeys hys).finished p,
          List.append_assoc es' ys _ ▸ hagree⟩

/-- A world whose passes give up when they are cancelled can follow each step of one whose passes ask
on regardless. -/
theorem Agree.exists_cancelling (h : Agree es w es' u) (ho : w.Ordered) (hroom : w.Roomy)
    (hs : u.stepRegardless? e = some u') (he : Obeys oracle [e]) :
    ∃ (xs : List Event) (w' : World), xs.foldlM World.step? w = some w' ∧ Obeys oracle xs ∧
      Agree (es ++ xs) w' (es' ++ [e]) u' := by
  cases hp : e.pass? with
  | none =>
    obtain ⟨w', u₁, hw, hs', hagree⟩ := h.aside ho hp
    obtain rfl := Option.some.inj (hs'.symm.trans hs)
    exact ⟨[e], w', foldlM_one hw, he, hagree⟩
  | some p =>
    obtain ⟨hsame, hlive⟩ | ⟨k, fan, hk, hc, hfan, hroom'⟩ := h.cancelled_or_same hroom p
    · obtain ⟨-, hnone⟩ | ⟨w', u₁, hw, hs', hboth⟩ :=
        World.step?_of_same h.analyzer hsame hlive hp
      · cases hnone.symm.trans hs
      · obtain rfl := Option.some.inj (hs'.symm.trans hs)
        exact ⟨[e], w', foldlM_one hw, he, h.both hboth (World.steps_of_step? hw) ho⟩
    · obtain ⟨hasks, fan', hon, hlimit, hasked⟩ | ⟨rfl, hd⟩ :=
        World.of_stepRegardless? hs hp he hfan
      · refine ⟨[], w, rfl, obeys_nil, ?_⟩
        exact h.apart (.refl w p) rfl hon.beside hon.analyzer hk hc hon.stage
          (hlimit.symm ▸ hroom') (h.asked.trans hasked) (List.forall_mem_nil _)
          (List.forall_mem_singleton.2 hasks)
      · -- the cancelled pass gives up what is left of its questions before it is finished
        obtain ⟨xs, w₁, k', hxs, hrun, hdone, hon, hasked⟩ :=
          World.exists_run_cancelled oracle hk hc
        have hc' : w₁.isCancelled k' = true := hon.isCancelled_eq.trans hc
        have hp' : u.passes[p]? = some (.asking { k' with fan }) := by
          rw [hfan, hon.work]
        have hagree : Agree (es ++ xs) w₁ (es' ++ []) u :=
          h.apart hon.beside hon.analyzer (.refl u p) rfl hon.stage hc' hp' hroom'
            (hasked.symm ▸ h.asked) hxs (List.forall_mem_nil _)
        rw [List.append_nil] at hagree
        obtain ⟨w', u₁, hw, hs', hagree⟩ :=
          hagree.finished (of_foldlM_step? World.Ordered.step ho hrun) hon.stage hc' hdone hp' hd
        obtain rfl := Option.some.inj (hs'.symm.trans hs)
        exact ⟨xs ++ [.finished p], w', foldlM_concat hrun hw, (Event.Asks.obeys hxs).finished p,
          List.append_assoc es xs _ ▸ hagree⟩

end

/-! ### Whole runs -/

section

variable {oracle : Nat → Nat → Answer → Prop} {R : Readers} {c : Config} {w u start : World}
  {ms : List Moment} {es : List Event}

theorem World.roomy_reading (R : Readers) (c : Config) : (reading R c).Roomy := nofun

theorem History.exists_regardless (h : History (.reading R c) ms w)
    (total : ∀ p number, ∃ a, oracle p number a) (ho : Obeys oracle (ms.map Moment.event)) :
    ∃ (es : List Event) (u : World), es.foldlM World.stepRegardless? (.reading R c) = some u ∧
      Obeys oracle es ∧ Agree (ms.map Moment.event) w es u := by
  suffices w.Roomy ∧ ∃ (es : List Event) (u : World),
      es.foldlM World.stepRegardless? (.reading R c) = some u ∧ Obeys oracle es ∧
        Agree (ms.map Moment.event) w es u from this.2
  induction h with
  | start => exact ⟨World.roomy_reading R c, [], _, rfl, obeys_nil, agree_reading R c⟩
  | @step ms w w' e h hs ih =>
    rw [List.map_append] at ho ⊢
    obtain ⟨hroom, es, u, hrun, hobeys, hagree⟩ :=
      ih fun p number a ha => ho p number a (List.mem_append_left _ ha)
    obtain ⟨ys, u', hrun', hobeys', hagree'⟩ := hagree.exists_regardless total h.ordered hroom hs
      fun p number a ha => ho p number a (List.mem_append_right _ ha)
    refine ⟨hroom.step (World.steps_of_step? hs), es ++ ys, u', ?_, hobeys.append hobeys', hagree'⟩
    rw [List.foldlM_append, hrun]
    exact hrun'

/-- A run by some events goes through moments at which they come. -/
theorem History.of_foldlM (h : es.foldlM World.step? start = some w) :
    ∃ ms, History start ms w ∧ ms.map Moment.event = es := by
  induction es using List.reverseRecOn generalizing w with
  | nil => exact ⟨[], Option.some.inj h ▸ .start, rfl⟩
  | append_singleton es e ih =>
    rw [List.foldlM_append] at h
    obtain ⟨v, hv, h⟩ := Option.bind_eq_some_iff.1 h
    obtain ⟨w', hw', h⟩ := Option.bind_eq_some_iff.1 h
    obtain rfl := Option.some.inj h
    obtain ⟨ms, hms, rfl⟩ := ih hv
    exact ⟨ms ++ [⟨v, e⟩], hms.step hw', by simp⟩

theorem exists_cancelling (h : es.foldlM World.stepRegardless? (.reading R c) = some u)
    (ho : Obeys oracle es) : ∃ (xs : List Event) (w : World),
      xs.foldlM World.step? (.reading R c) = some w ∧ Obeys oracle xs ∧ Agree xs w es u := by
  induction es using List.reverseRecOn generalizing u with
  | nil => exact ⟨[], _, rfl, obeys_nil, Option.some.inj h ▸ agree_reading R c⟩
  | append_singleton es e ih =>
    rw [List.foldlM_append] at h
    obtain ⟨v, hv, h⟩ := Option.bind_eq_some_iff.1 h
    obtain ⟨u', hu', h⟩ := Option.bind_eq_some_iff.1 h
    obtain rfl := Option.some.inj h
    obtain ⟨xs, w, hrun, hobeys, hagree⟩ :=
      ih hv fun p number a ha => ho p number a (List.mem_append_left _ ha)
    have hordered := of_foldlM_step? World.Ordered.step (World.ordered_reading R c) hrun
    have hroom := of_foldlM_step? World.Roomy.step (World.roomy_reading R c) hrun
    obtain ⟨xs', w', hrun', hobeys', hagree'⟩ := hagree.exists_cancelling hordered hroom hu'
      fun p number a ha => ho p number a (List.mem_append_right _ ha)
    refine ⟨xs ++ xs', w', ?_, hobeys.append hobeys', hagree'⟩
    rw [List.foldlM_append, hrun]
    exact hrun'

/-- Once its document is edited or closed while it is open, a pass that was begun before puts no
question any more; all other passes put their questions and take the answers as if nothing had
happened.  A pass that keeps its results gave no question up.  And whatever the oracle answers, the
runs in which cancelled passes give up and those in which they ask on regardless come to the same:
each of the former agrees with one of the latter, and each of the latter with one of the former. -/
theorem cancellation_only_spares_questions (R : Readers) (c : Config)
    (total : ∀ p number, ∃ a, oracle p number a) :
    (∀ ms w, History (.reading R c) ms w →
      (∀ before m₀ between p r, ms = before ++ m₀ :: between → m₀.Begins p r →
        ((∃ m ∈ between, m.Ends r.key) → w.Silent p) ∧
        ((∀ m ∈ between, ¬ m.Ends r.key) → ∀ k, w.passes[p]? = some (.asking k) →
          w.Unhindered p k)) ∧
      (∀ (p : Nat) r candidates hits,
        w.passes[p]? = some (.done r (.outcome (.committed candidates hits))) →
        ∀ m ∈ ms, m.event ≠ .skipped p ∧ ∀ number, m.event ≠ .dropped p number) ∧
      (Obeys oracle (ms.map Moment.event) → ∃ (es : List Event) (u : World),
        es.foldlM World.stepRegardless? (.reading R c) = some u ∧ Obeys oracle es ∧
          Agree (ms.map Moment.event) w es u)) ∧
    ∀ (es : List Event) (u : World), es.foldlM World.stepRegardless? (.reading R c) = some u →
      Obeys oracle es → ∃ ms w, History (.reading R c) ms w ∧
        Obeys oracle (ms.map Moment.event) ∧ Agree (ms.map Moment.event) w es u := by
  refine ⟨fun ms w h => ⟨?_, ?_, h.exists_regardless total⟩, fun es u hrun ho => ?_⟩
  · rintro before m₀ between p r rfl hm
    exact h.held_up hm
  · exact fun p r candidates hits hp m hm => h.not_given_up hp hm
  · obtain ⟨xs, w, hrun', hobeys, hagree⟩ := exists_cancelling hrun ho
    obtain ⟨ms, h, rfl⟩ := History.of_foldlM hrun'
    exact ⟨ms, w, h, hobeys, hagree⟩

end

/-! ### An edit under way -/

namespace TwoLines

/-- The document is edited before the first pass asks; it asks all the same. -/
def editRegardless : List Event :=
  [.opened document.key, .spawned ⟨document, lineAt 0⟩, .spawned ⟨document, lineAt 1⟩, .begun 0,
    .edited document.key, .begun 1, .asked 0, .asked 1, .answered 0 0 (some signature), .finished 0,
    .answered 1 0 (some signature), .finished 1]

end TwoLines

open TwoLines in
/-- After the edit the first pass is silent and the second one is not held up.  Where the first pass
asks all the same, it is stale in the end as well. -/
theorem cancellation_of_edited_lines :
    ((edit.take 6).foldl World.step start).Silent 0 ∧
      (∃ k, ((edit.take 6).foldl World.step start).passes[1]? = some (.asking k) ∧
        ((edit.take 6).foldl World.step start).Unhindered 1 k) ∧
      (∀ m ∈ start.moments edit, m.event ≠ .skipped 1 ∧ ∀ number, m.event ≠ .dropped 1 number) ∧
      (∃ (es : List Event) (u : World), es.foldlM World.stepRegardless? start = some u ∧
        Agree ((start.moments edit).map Moment.event) (edit.foldl World.step start) es u) ∧
      ∃ u ms w, editRegardless.foldlM World.stepRegardless? start = some u ∧ History start ms w ∧
        Agree (ms.map Moment.event) w editRegardless u := by
  let oracle : Nat → Nat → Answer → Prop := fun _ _ a => a = some signature
  have total : ∀ p number, ∃ a, oracle p number a := fun _ _ => ⟨_, rfl⟩
  obtain ⟨hruns, hregardless⟩ := cancellation_only_spares_questions readers .builtIn total
  have hbegun : History start (start.moments (edit.take 6)) ((edit.take 6).foldl World.step start) :=
    World.history_moments (by decide +kernel)
  have hrun : History start (start.moments edit) (edit.foldl World.step start) :=
    World.history_moments (by decide +kernel)
  obtain ⟨hheld, -, -⟩ := hruns _ _ hbegun
  obtain ⟨-, hkept, hfollowed⟩ := hruns _ _ hrun
  have hedited : Moment.Ends ⟨(edit.take 4).foldl World.step start, .edited document.key⟩
      document.key := ⟨rfl, by decide +kernel⟩
  obtain ⟨hsilent, -⟩ := hheld (start.moments (edit.take 3))
    ⟨(edit.take 3).foldl World.step start, .begun 0⟩
    (((edit.take 4).foldl World.step start).moments [.edited document.key, .begun 1]) 0 _ rfl
    ⟨rfl, rfl⟩
  obtain ⟨-, hunhindered⟩ := hheld (start.moments (edit.take 5))
    ⟨(edit.take 5).foldl World.step start, .begun 1⟩ [] 1 _ rfl ⟨rfl, rfl⟩
  obtain ⟨k, hk⟩ : ∃ k, ((edit.take 6).foldl World.step start).asking? 1 = some k :=
    Option.isSome_iff_exists.1 (by decide +kernel)
  have hk := World.asking?_eq_some_iff.1 hk
  have hcommitted : ((edit.foldl World.step start).passes[1]?.bind Stage.ending?) =
      some (.outcome (.committed 1 1)) := by
    decide +kernel
  obtain ⟨r, hr⟩ := Stage.eq_done_of_ending? hcommitted
  obtain ⟨es, u, hes, -, hagree⟩ := hfollowed fun p number a ha => by
    rw [World.map_event_moments] at ha
    simp only [edit, List.mem_cons, List.not_mem_nil, Event.answered.injEq, reduceCtorEq, false_or,
      or_false] at ha
    exact ha.2.2
  obtain ⟨u', hu'⟩ : ∃ u, editRegardless.foldlM World.stepRegardless? start = some u :=
    Option.isSome_iff_exists.1 (by decide +kernel)
  obtain ⟨ms, w, hms, -, hagree'⟩ := hregardless _ _ hu' fun p number a ha => by
    simp only [editRegardless, List.mem_cons, List.not_mem_nil, Event.answered.injEq, reduceCtorEq,
      false_or, or_false] at ha
    obtain ⟨-, -, rfl⟩ | ⟨-, -, rfl⟩ := ha <;> rfl
  exact ⟨hsilent ⟨_, List.mem_cons_self, hedited⟩,
    ⟨k, hk, hunhindered (fun _ h => absurd h List.not_mem_nil) k hk⟩, hkept 1 r 1 1 hr,
    ⟨es, u, hes, hagree⟩, u', ms, w, hu', hms, hagree'⟩

end AnySpans.Passes
