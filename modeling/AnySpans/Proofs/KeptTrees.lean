import AnySpans.Proofs.Coverage
import AnySpans.Proofs.Tables

/-!
# Kept trees

A tree is kept for the passes that come later in the same generation and dialect.  It was parsed by a
pass that was planned in the session and generation in which it is kept (`Keeps`), so where such
passes carry the same text it is what parsing would give.

A registry without its trees is `treeless`.  No operation but `plan` looks at trees, and none changes
anything else by storing one; so a world that keeps trees goes the way of one that parses always
(`World.stepParsing?`), with the same passes, questions, results and calls of the sink
(`kept_trees_are_fresh`).
-/

namespace AnySpans.Documents

open AnySpans.Lines AnySpans.Syntax AnySpans.Text

/-! ### Leaving the trees out -/

/-- A session without its tree. -/
def Session.treeless (s : Session) : Session := { s with tree := none }

/-- A plan without the tree. -/
def Plan.treeless : Plan → Plan
  | .work t lines token _ => .work t lines token none
  | plan => plan

/-- The tree a plan comes with. -/
def Plan.tree? : Plan → Option Tree
  | .work _ _ _ tree => tree
  | _ => none

theorem Plan.eq_work_of_tree? {plan : Plan} {tree : Tree} (h : plan.tree? = some tree) :
    ∃ t lines token, plan = .work t lines token (some tree) := by
  cases plan with
  | work t lines token kept => exact ⟨t, lines, token, congrArg _ h⟩
  | _ => cases h

namespace Registry

/-- A registry without its trees. -/
def treeless (r : Registry) : Registry := { r with sessions := r.sessions.map Session.treeless }

variable (r : Registry)

theorem session?_treeless (k : Key) :
    r.treeless.session? k = (r.session? k).map Session.treeless := Table.get?_map _ _ k

theorem isOpen_treeless (k : Key) : r.treeless.isOpen k = r.isOpen k := by
  rw [isOpen, session?_treeless, Option.isSome_map, isOpen]

theorem analysis?_treeless (k : Key) : r.treeless.analysis? k = r.analysis? k := by
  rw [analysis?, session?_treeless, Option.bind_map]
  rfl

theorem shown_treeless (k : Key) (surfaceErrors : Bool) :
    r.treeless.shown k surfaceErrors = r.shown k surfaceErrors := by
  rw [shown, session?_treeless, Option.bind_map]
  rfl

theorem current?_treeless (t : Ticket) :
    r.treeless.current? t = (r.current? t).map Session.treeless := by
  rw [current?, session?_treeless, current?, Option.filter_map]
  rfl

theorem open'_treeless (k : Key) : r.treeless.open' k = (r.open' k).treeless := by
  rw [open', isOpen_treeless, open']
  split
  · rfl
  · exact congrArg (Registry.mk · _ _ _)
      (Table.put_map Session.treeless r.sessions k (.new (r.opened + 1) r.tokens))

theorem close_treeless (k : Key) : r.treeless.close k = (r.close k).treeless := by
  rw [close, session?_treeless, close]
  cases r.session? k with
  | none => rfl
  | some s => exact congrArg (Registry.mk · _ _ _) (Table.erase_map Session.treeless r.sessions k)

theorem edit_treeless (k : Key) : r.treeless.edit k = (r.edit k).treeless := by
  rw [edit, session?_treeless, edit]
  cases r.session? k with
  | none => rfl
  | some s =>
    exact congrArg (Registry.mk · _ _ _)
      (Table.put_map Session.treeless r.sessions k (s.edited r.tokens))

theorem setErrors_treeless (k : Key) (errors : List Range) :
    r.treeless.setErrors k errors = (r.setErrors k errors).treeless := by
  refine congrArg (Registry.mk · _ _ _) (Table.modify_map Session.treeless ?_ r.sessions k)
  exact fun _ => rfl

theorem commit?_treeless (t : Ticket) (visible : LineRange) (hits : List Range) :
    r.treeless.commit? t visible hits = (r.commit? t visible hits).map treeless := by
  rw [commit?, current?_treeless, commit?, Option.map_map, Option.map_map]
  refine Option.map_congr fun s _ => ?_
  exact congrArg (Registry.mk · _ _ _)
    (Table.put_map Session.treeless r.sessions t.key (s.withResults visible hits))

/-- What is planned does not depend on trees, but for the tree. -/
theorem plan_treeless (k : Key) (visible : LineRange) (d : Dialect) :
    r.treeless.plan k visible d = (r.plan k visible d).treeless := by
  rw [plan, session?_treeless, plan]
  cases r.session? k with
  | none => rfl
  | some s =>
    have huncovered : s.treeless.uncovered visible = s.uncovered visible := rfl
    simp only [Option.map_some, huncovered]
    split <;> rfl

/-- Storing a tree changes nothing else. -/
theorem treeless_storeTree (t : Ticket) (d : Dialect) (tree : Tree) :
    (r.storeTree t d tree).treeless = r.treeless := by
  rw [storeTree]
  split
  · rfl
  · rename_i s hs
    obtain ⟨hs, -⟩ := current?_eq_some_iff.1 hs
    exact congrArg (Registry.mk · _ _ _) (Table.map_put_of_get? Session.treeless hs rfl)

end Registry

end AnySpans.Documents

namespace AnySpans.Passes

open AnySpans.Documents AnySpans.Lines AnySpans.Settings AnySpans.Syntax AnySpans.Text

namespace Analyzer

variable (a : Analyzer)

/-- An analyzer without the trees it keeps. -/
def treeless : Analyzer := { a with registry := a.registry.treeless }

theorem treeless_of_registry {r r' : Registry} (h : r = r'.treeless) :
    ({ a.treeless with registry := r } : Analyzer) =
      ({ a with registry := r' } : Analyzer).treeless := by
  rw [h]
  rfl

theorem treeless_storeTree (t : Ticket) (d : Dialect) (tree : Tree) :
    ({ a with registry := a.registry.storeTree t d tree } : Analyzer).treeless = a.treeless :=
  (a.treeless_of_registry (a.registry.treeless_storeTree t d tree).symm).symm

/-- Begins a pass that takes no tree that is kept, and keeps none. -/
def beginParsing (r : Request) : Analyzer × Stage :=
  match Dialect.detect r.document.language r.document.text.toList with
  | none => (a, .done r (.outcome .unsupported))
  | some d =>
    match a.registry.plan r.key r.visible d with
    | .closed => (a, .done r (.outcome .closed))
    | .cached => (a.render r.key, .done r (.outcome .cached))
    | .work t lines token _ =>
      match a.readers.parse d r.document.text.toList with
      | .error e => (a, .done r (.refused e))
      | .ok tree => (a, a.beginAsking r t token lines tree)

theorem render_treeless (k : Key) : a.treeless.render k = (a.render k).treeless := by
  have hshown : a.treeless.registry.shown k a.treeless.config.surfaceErrors =
      a.registry.shown k a.config.surfaceErrors := a.registry.shown_treeless k _
  rw [render, hshown, render]
  split <;> rfl

theorem foldl_render_treeless (ks : List Key) :
    ks.foldl render a.treeless = (ks.foldl render a).treeless := by
  induction ks generalizing a with
  | nil => rfl
  | cons k ks ih => rw [List.foldl_cons, List.foldl_cons, render_treeless, ih]

theorem setConfig_treeless (c : Config) : a.treeless.setConfig c = (a.setConfig c).treeless := by
  have hkeys : a.treeless.registry.sessions.keys = a.registry.sessions.keys := Table.keys_map _ _
  rw [setConfig, hkeys, setConfig]
  exact foldl_render_treeless { a with config := c, sink := { a.sink with style := c.style } } _

theorem setErrors_treeless (k : Key) (errors : List Range) :
    a.treeless.setErrors k errors = (a.setErrors k errors).treeless := by
  have hopen : a.treeless.registry.isOpen k = a.registry.isOpen k := a.registry.isOpen_treeless k
  rw [setErrors, hopen, setErrors]
  split
  · rw [← render_treeless]
    exact congrArg (render · k) (a.treeless_of_registry (a.registry.setErrors_treeless k errors))
  · rfl

theorem finishPass_treeless (k : Work) :
    a.treeless.finishPass k = ((a.finishPass k).1.treeless, (a.finishPass k).2) := by
  have hcommit : a.treeless.registry.commit? k.ticket k.request.visible k.fan.hits =
      (a.registry.commit? k.ticket k.request.visible k.fan.hits).map Registry.treeless :=
    a.registry.commit?_treeless _ _ _
  rw [finishPass, hcommit, finishPass]
  cases a.registry.commit? k.ticket k.request.visible k.fan.hits with
  | none => rfl
  | some registry => exact congrArg (·, _) (render_treeless { a with registry } _)

/-- A pass that takes a tree that is kept begins as if it had parsed, if parsing gives that tree. -/
theorem beginParsing_treeless {r : Request} (h : ∀ d t lines token tree,
      Dialect.detect r.document.language r.document.text.toList = some d →
      a.registry.plan r.key r.visible d = .work t lines token (some tree) →
      a.readers.parse d r.document.text.toList = .ok tree) :
    a.treeless.beginParsing r = ((a.beginPass r).1.treeless, (a.beginPass r).2) := by
  have hreaders : a.treeless.readers = a.readers := rfl
  rw [beginParsing, hreaders, beginPass]
  cases hd : Dialect.detect r.document.language r.document.text.toList with
  | none => rfl
  | some d =>
    have hplan : a.treeless.registry.plan r.key r.visible d =
        (a.registry.plan r.key r.visible d).treeless := a.registry.plan_treeless _ _ _
    simp only [hplan]
    cases hp : a.registry.plan r.key r.visible d with
    | closed => rfl
    | cached => exact congrArg (·, _) (a.render_treeless r.key)
    | work t lines token kept =>
      cases kept with
      | some tree =>
        simp only [Plan.treeless, h d t lines token tree hd hp]
        rfl
      | none =>
        simp only [Plan.treeless]
        cases a.readers.parse d r.document.text.toList with
        | error e => rfl
        | ok tree => exact congrArg (·, _) (a.treeless_storeTree t d tree).symm

end Analyzer

/-! ### A world that parses always -/

namespace World

variable (w : World)

/-- A world without the trees that are kept in it. -/
def treeless : World := { w with analyzer := w.analyzer.treeless }

/-- The world after an event where no tree is kept. -/
def stepParsing? : Event → Option World
  | .begun pass =>
    match w.passes[pass]? with
    | some (.ready r) =>
      let (a, s) := w.analyzer.beginParsing r
      some ({ w with analyzer := a }.setStage pass s)
    | _ => none
  | e => w.step? e

theorem map_treeless_bind {α : Type} (x : Option α) {f f' : α → Option World}
    (h : ∀ a, f' a = (f a).map treeless) : x.bind f' = (x.bind f).map treeless := by
  cases x with
  | none => rfl
  | some a => exact h a

/-- Only the beginning of a pass looks at trees. -/
theorem step?_treeless {e : Event} (h : ∀ p, e ≠ .begun p) :
    w.treeless.step? e = (w.step? e).map treeless := by
  have hanalyzer : ∀ {f : Analyzer → Analyzer}, f w.analyzer.treeless = (f w.analyzer).treeless →
      some (w.treeless.change f) = (some (w.change f)).map treeless := fun hf =>
    congrArg (fun a => some { w with analyzer := a }) hf
  have hcancelled : ∀ k, w.treeless.isCancelled k = w.isCancelled k := fun _ => rfl
  cases e with
  | opened j =>
    exact hanalyzer (w.analyzer.treeless_of_registry (w.analyzer.registry.open'_treeless j))
  | closed j =>
    exact hanalyzer (w.analyzer.treeless_of_registry (w.analyzer.registry.close_treeless j))
  | edited j =>
    exact hanalyzer (w.analyzer.treeless_of_registry (w.analyzer.registry.edit_treeless j))
  | errors j ranges => exact hanalyzer (w.analyzer.setErrors_treeless j ranges)
  | configured c => exact hanalyzer (w.analyzer.setConfig_treeless c)
  | spawned r => rfl
  | begun p => exact absurd rfl (h p)
  | asked p =>
    refine map_treeless_bind (w.asking? p) fun k => ?_
    rw [hcancelled]
    split
    · rfl
    · exact map_treeless_bind k.fan.ask? fun _ => rfl
  | skipped p =>
    refine map_treeless_bind (w.asking? p) fun k => ?_
    rw [hcancelled]
    split
    · rfl
    · exact map_treeless_bind k.fan.skip? fun _ => rfl
  | answered p number a =>
    refine map_treeless_bind (w.asking? p) fun k => ?_
    rw [hcancelled]
    split
    · rfl
    · exact map_treeless_bind (k.fan.answer? number a) fun _ => rfl
  | dropped p number =>
    refine map_treeless_bind (w.asking? p) fun k => ?_
    rw [hcancelled]
    split
    · rfl
    · exact map_treeless_bind (k.fan.answer? number none) fun _ => rfl
  | finished p =>
    refine map_treeless_bind (w.asking? p) fun k => ?_
    have hfinish : w.treeless.analyzer.finishPass k =
        ((w.analyzer.finishPass k).1.treeless, (w.analyzer.finishPass k).2) :=
      w.analyzer.finishPass_treeless k
    rw [hfinish]
    split <;> rfl

theorem stepParsing?_of_ne {e : Event} (h : ∀ p, e ≠ .begun p) : w.stepParsing? e = w.step? e := by
  cases e with
  | begun p => exact absurd rfl (h p)
  | _ => rfl

end World

/-! ### Passes that were planned -/

/-- At a moment a pass begins and plans work, with a ticket, in a dialect; `kept` is the tree that is
kept for it. -/
structure Moment.Plans (m : Moment) (p : Nat) (r : Request) (d : Dialect) (t : Ticket)
    (kept : Option Tree) : Prop where
  event : m.event = .begun p
  ready : m.world.passes[p]? = some (.ready r)
  detect : Dialect.detect r.document.language r.document.text.toList = some d
  plan : ∃ lines token, m.world.analyzer.registry.plan r.key r.visible d = .work t lines token kept

/-- Passes that are planned in one session and generation of a document carry the same text; the ids
of their languages may differ. -/
def SameTexts (ms : List Moment) : Prop :=
  ∀ m ∈ ms, ∀ m' ∈ ms, ∀ p r d t kept p' r' d' t' kept', m.Plans p r d t kept →
    m'.Plans p' r' d' t' kept' → (t.key == t'.key) = true → t.session = t'.session →
    t.generation = t'.generation → r.document.text = r'.document.text

theorem SameTexts.left {ms ms' : List Moment} (h : SameTexts (ms ++ ms')) : SameTexts ms :=
  fun m hm m' hm' => h m (List.mem_append_left _ hm) m' (List.mem_append_left _ hm')

/-- Passes carry the same text if all that are called for do. -/
theorem sameTexts_moments {w : World} {es : List Event} (text : String) (hw : w.passes = [])
    (h : ∀ r, .spawned r ∈ es → r.document.text = text) : SameTexts (w.moments es) := by
  have htext : ∀ m ∈ w.moments es, ∀ p r d t kept, m.Plans p r d t kept →
      r.document.text = text := by
    intro m hm p r d t kept hplans
    obtain hr | hr := World.ready_of_mem_moments hm hplans.ready
    · rw [hw] at hr
      cases hr
    · exact h r hr
  intro m hm m' hm' p r d t kept p' r' d' t' kept' hplans hplans' _ _ _
  rw [htext m hm p r d t kept hplans, htext m' hm' p' r' d' t' kept' hplans']

/-! ### What is kept -/

/-- Each tree that is kept was parsed from the text of a pass that was planned in the session and
generation that keeps it. -/
def Keeps (R : Readers) (ms : List Moment) (w : World) : Prop :=
  ∀ j s kt, w.analyzer.registry.session? j = some s → s.tree = some kt →
    ∃ m ∈ ms, ∃ p r t kept, m.Plans p r kt.dialect t kept ∧ (t.key == j) = true ∧
      s.admits t = true ∧ R.parse kt.dialect r.document.text.toList = .ok kt.tree

section

variable {R : Readers} {c : Config} {ms : List Moment} {w w' : World} {e : Event}

theorem Keeps.step (h : Keeps R ms w) (hR : w.analyzer.readers = R) (hs : w.Steps e w') :
    Keeps R (ms ++ [⟨w, e⟩]) w' := by
  intro j s kt hj htree
  -- what was kept before is still accounted for, in a session with the same names
  have hbefore : ∀ s₀, w.analyzer.registry.session? j = some s₀ → s₀.tree = some kt →
      s₀.Alike s → ∃ m ∈ ms ++ [⟨w, e⟩], ∃ p r t kept, m.Plans p r kt.dialect t kept ∧
        (t.key == j) = true ∧ s.admits t = true ∧
        R.parse kt.dialect r.document.text.toList = .ok kt.tree := by
    intro s₀ h₀ htree₀ halike
    obtain ⟨m, hm, p, r, t, kept, hplans, hkey, hadmits, hparse⟩ := h j s₀ kt h₀ htree₀
    refine ⟨m, List.mem_append_left _ hm, p, r, t, kept, hplans, hkey, ?_, hparse⟩
    rwa [Registry.admits_iff, ← halike.number, ← halike.generation, ← Registry.admits_iff]
  obtain hsame | ⟨op, hop, hreg⟩ := hs.registry
  · exact hbefore s (hsame ▸ hj) htree ⟨rfl, rfl⟩
  rw [hreg] at hj
  obtain ⟨hblank, -⟩ | ⟨s₀, h₀, hgoes⟩ := Registry.session?_perform hj
  · rw [hblank.tree] at htree
    cases htree
  cases hgoes with
  | same => exact hbefore s h₀ htree ⟨rfl, rfl⟩
  | judged => exact hbefore s₀ h₀ htree ⟨rfl, rfl⟩
  | committed => exact hbefore s₀ h₀ htree ⟨rfl, rfl⟩
  | @stored t d tree hkey hadmits =>
    cases htree
    cases hop with
    | begun hp hd hplan hparse =>
      rw [hR] at hparse
      exact ⟨_, List.mem_append_right _ (List.mem_singleton_self _), _, _, t, none,
        ⟨rfl, hp, hd, _, _, hplan⟩, hkey, hadmits, hparse⟩

/-- Where passes of a generation carry the same text, a tree that is kept for a pass is that of its
text in its dialect. -/
theorem Keeps.parse_eq (h : Keeps R ms w) {m : Moment} (hm : m.world = w)
    (hsame : SameTexts (ms ++ [m])) {p : Nat} {r : Request} {d : Dialect} {t : Ticket} {tree : Tree}
    (hplans : m.Plans p r d t (some tree)) : R.parse d r.document.text.toList = .ok tree := by
  obtain ⟨lines, token, hplan⟩ := hplans.plan
  rw [hm] at hplan
  obtain ⟨s, hs, rfl, -, -, hkept⟩ := Registry.exists_session_of_plan hplan
  obtain ⟨kt, hfilter, rfl⟩ := Option.map_eq_some_iff.1 hkept.symm
  obtain ⟨hkt, hmatch⟩ := Option.filter_eq_some_iff.1 hfilter
  obtain ⟨-, hdialect⟩ := Bool.and_eq_true_iff.1 hmatch
  obtain rfl := eq_of_beq hdialect
  obtain ⟨m₀, hm₀, p₀, r₀, t₀, kept₀, hplans₀, hkey, hadmits, hparse⟩ := h _ s kt hs hkt
  obtain ⟨hnumber, hgeneration⟩ := Registry.admits_iff.1 hadmits
  have htext := hsame m₀ (List.mem_append_left _ hm₀) m
    (List.mem_append_right _ (List.mem_singleton_self _)) _ _ _ _ _ _ _ _ _ _ hplans₀ hplans hkey
    hnumber.symm hgeneration.symm
  rwa [← htext]

theorem History.keeps (h : History (.reading R c) ms w) : Keeps R ms w := by
  induction h with
  | start => exact fun j s kt hj => by cases hj
  | step h hs ih => exact ih.step h.readers (World.steps_of_step? hs)

/-! ### Both worlds side by side -/

/-- A world that keeps trees and one that does not make the same step. -/
theorem History.stepParsing?_treeless (h : History (.reading R c) ms w)
    (hsame : SameTexts (ms ++ [⟨w, e⟩])) :
    w.treeless.stepParsing? e = (w.step? e).map World.treeless := by
  by_cases he : ∃ p, e = .begun p
  · obtain ⟨p, rfl⟩ := he
    have hpasses : w.treeless.passes[p]? = w.passes[p]? := rfl
    simp only [World.stepParsing?, World.step?, hpasses]
    cases hp : w.passes[p]? with
    | none => rfl
    | some st =>
      cases st with
      | ready r =>
        have hbegin : w.treeless.analyzer.beginParsing r =
            ((w.analyzer.beginPass r).1.treeless, (w.analyzer.beginPass r).2) := by
          refine w.analyzer.beginParsing_treeless fun d t lines token tree hd hplan => ?_
          rw [h.readers]
          exact h.keeps.parse_eq rfl hsame ⟨rfl, hp, hd, lines, token, hplan⟩
        simp only [hbegin]
        rfl
      | _ => rfl
  · have he : ∀ p, e ≠ .begun p := fun p hp => he ⟨p, hp⟩
    rw [World.stepParsing?_of_ne _ he, World.step?_treeless _ he]

/-- Whether an event is possible does not depend on trees. -/
theorem World.isSome_stepParsing?_treeless (w : World) (e : Event) :
    (w.treeless.stepParsing? e).isSome = (w.step? e).isSome := by
  by_cases he : ∃ p, e = .begun p
  · obtain ⟨p, rfl⟩ := he
    have hpasses : w.treeless.passes[p]? = w.passes[p]? := rfl
    simp only [stepParsing?, step?, hpasses]
    cases w.passes[p]? with
    | none => rfl
    | some st => cases st <;> rfl
  · have he : ∀ p, e ≠ .begun p := fun p hp => he ⟨p, hp⟩
    rw [stepParsing?_of_ne _ he, step?_treeless _ he, Option.isSome_map]

theorem History.foldlM_stepParsing? (h : History (.reading R c) ms w) (hsame : SameTexts ms) :
    (ms.map Moment.event).foldlM World.stepParsing? (.reading R c) = some w.treeless := by
  induction h with
  | start => rfl
  | step h hs ih =>
    rw [List.map_append, List.foldlM_append, ih hsame.left]
    simp only [Option.bind_eq_bind, Option.bind_some, List.map_cons, List.map_nil,
      List.foldlM_cons, h.stepParsing?_treeless hsame, hs, Option.map_some]
    rfl

/-- Where all passes that are planned in one session and generation of a document carry the same
text, a tree that is kept for a pass is what parsing its text in its dialect gives at that moment.
And analyzers that parse always go through the same events to the same passes, questions, calls of
the sink and results. -/
theorem kept_trees_are_fresh (h : History (.reading R c) ms w) (hsame : SameTexts ms) :
    (∀ m ∈ ms, ∀ p r d t tree, m.Plans p r d t (some tree) →
      m.world.analyzer.readers.parse d r.document.text.toList = .ok tree) ∧
    ∃ w', (ms.map Moment.event).foldlM World.stepParsing? (.reading R c) = some w' ∧
      w'.passes = w.passes ∧ w'.asked = w.asked ∧ w'.analyzer.sink = w.analyzer.sink ∧
      (∀ k, w'.analyzer.registry.analysis? k = w.analyzer.registry.analysis? k) ∧
      ∀ e, (w'.stepParsing? e).isSome = (w.step? e).isSome := by
  refine ⟨?_, w.treeless, h.foldlM_stepParsing? hsame, rfl, rfl, rfl,
    w.analyzer.registry.analysis?_treeless, w.isSome_stepParsing?_treeless⟩
  induction h with
  | start => exact fun m hm => absurd hm List.not_mem_nil
  | step h hs ih =>
    intro m hm p r d t tree hplans
    obtain hm | hm := List.mem_append.1 hm
    · exact ih hsame.left m hm p r d t tree hplans
    · obtain rfl := List.mem_singleton.1 hm
      rw [h.readers]
      exact h.keeps.parse_eq rfl hsame hplans

end

/-! ### Two dialects -/

namespace TwoDialects

open TwoLines

/-- Two lines with the id of a language. -/
def written (language : String) : Snapshot := ⟨document.key, language, document.text⟩

/-- Readers that read the two lines, with markup or without. -/
def eitherReader : Readers := ⟨readers.plain, readers.plain⟩

/-- Passes over the first line in one dialect and in another, and then one over the second line in
the other dialect. -/
def switches : List Event :=
  [.opened document.key, .spawned ⟨written "typescript", lineAt 0⟩,
    .spawned ⟨written "typescriptreact", lineAt 0⟩, .spawned ⟨written "typescriptreact", lineAt 1⟩,
    .begun 0, .begun 1, .begun 2]

def outset : World := .reading eitherReader .builtIn

/-- The last of the passes begins. -/
def thirdPass : Moment := ⟨(switches.take 6).foldl World.step outset, .begun 2⟩

theorem sameTexts_switches : SameTexts (outset.moments switches) := by
  refine sameTexts_moments document.text rfl fun r hr => ?_
  simp only [switches, List.mem_cons, List.not_mem_nil, Event.spawned.injEq, reduceCtorEq, false_or,
    or_false] at hr
  obtain rfl | rfl | rfl := hr <;> rfl

end TwoDialects

open TwoLines TwoDialects in
/-- The last pass takes the tree of the one before it, which replaced the one in the first
dialect. -/
theorem kept_tree_of_two_dialects :
    History outset (outset.moments switches) (switches.foldl World.step outset) ∧
      SameTexts (outset.moments switches) ∧ thirdPass ∈ outset.moments switches ∧
      ∃ r t tree, thirdPass.Plans 2 r .tsx t (some tree) ∧
        thirdPass.world.analyzer.readers.parse .tsx r.document.text.toList = .ok tree ∧
        ∃ w', ((outset.moments switches).map Moment.event).foldlM World.stepParsing? outset =
            some w' ∧
          w'.passes = (switches.foldl World.step outset).passes := by
  have hrun : History outset (outset.moments switches) (switches.foldl World.step outset) :=
    World.history_moments (by decide +kernel)
  have hthird : thirdPass ∈ outset.moments switches := List.mem_of_getElem? (i := 6) rfl
  have hready : thirdPass.world.passes[2]? =
      some (.ready ⟨written "typescriptreact", lineAt 1⟩) := rfl
  have hdetect : Dialect.detect "typescriptreact" document.text.toList = some .tsx := rfl
  have hkept : (thirdPass.world.analyzer.registry.plan document.key (lineAt 1) .tsx).tree?.isSome =
      true := by
    decide +kernel
  obtain ⟨tree, htree⟩ := Option.isSome_iff_exists.1 hkept
  obtain ⟨t, lines, token, hplan⟩ := Plan.eq_work_of_tree? htree
  have hplans : thirdPass.Plans 2 ⟨written "typescriptreact", lineAt 1⟩ .tsx t (some tree) :=
    ⟨rfl, hready, hdetect, lines, token, hplan⟩
  obtain ⟨hfresh, w', hw', hpasses, -⟩ := kept_trees_are_fresh hrun sameTexts_switches
  exact ⟨hrun, sameTexts_switches, hthird, _, t, tree, hplans,
    hfresh thirdPass hthird _ _ _ _ _ hplans, w', hw', hpasses⟩

end AnySpans.Passes
