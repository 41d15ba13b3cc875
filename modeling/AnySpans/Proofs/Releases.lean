import AnySpans.Check.Run
import AnySpans.Proofs.Bookkeeping
import AnySpans.Proofs.Exchanges
import AnySpans.Proofs.Paging
import AnySpans.Proofs.Schedules
import AnySpans.Proofs.Tables

/-!
# Documents that are released

While a file is checked, its document is the only one that is open in the analyzer and the only one
that the server was given (`Check.Running.Visits`).  That holds after each move, whatever the server
does, so that in the end there is nothing else to close: a check that has returned leaves no document
behind (`Check.Running.Clear`), with findings or with an error.
-/

namespace AnySpans.Documents.Table

variable {β : Type} {t : Table β} {j k : Key} {b : β}

theorem mem_keys_put (h : j ∈ (t.put k b).keys) : j ∈ t.keys ∨ j = k := by
  have hkeys : (t.put k b).keys = if t.rows.any (·.1 == k) then t.keys else t.keys ++ [k] :=
    map_putRow k b t.rows
  rw [hkeys] at h
  split at h
  · exact .inl h
  · exact (List.mem_append.1 h).imp_right List.mem_singleton.1

/-- A value that takes the place of another one is of the same document. -/
theorem keys_put_of_get? {b' : β} (h : t.get? k = some b') : (t.put k b).keys = t.keys := by
  obtain ⟨r, hr, hk, -⟩ := exists_mem_of_get? h
  exact (map_putRow k b t.rows).trans (if_pos (List.any_eq_true.2 ⟨r, hr, hk⟩))

theorem keys_erase_of_all (h : ∀ j ∈ t.keys, (j == k) = true) : (t.erase k).keys = [] := by
  have hrows : t.rows.filter (fun r => !r.1 == k) = [] := List.filter_eq_nil_iff.2 fun r hr => by
    rw [h r.1 (List.mem_map_of_mem hr)]
    decide
  show (t.rows.filter fun r => !r.1 == k).map (·.1) = []
  rw [hrows]
  rfl

theorem keys_eq_nil_of_get? (h : ∀ j ∈ t.keys, (j == k) = true) (hk : t.get? k = none) :
    t.keys = [] := by
  rw [get?, Option.map_eq_none_iff] at hk
  refine List.eq_nil_iff_forall_not_mem.2 fun j hj => ?_
  obtain ⟨r, hr, rfl⟩ := List.mem_map.1 hj
  exact List.find?_eq_none.1 hk r hr (h r.1 hj)

end AnySpans.Documents.Table

/-! ### The server -/

namespace AnySpans.Server.Client

open AnySpans.Documents

/-- Of all documents at most one was given to the server. -/
structure Holds (k : Key) (c : Client) : Prop where
  texts : ∀ j ∈ c.texts.keys, (j == k) = true
  files : c.connection.isOpen = true → ∀ file, (filesOf c.stream file).isSome = true →
    file = k.path ∧ c.texts.contains k = true

/-- No document is on the server; a connection that has ended does not tell any more. -/
structure Released (c : Client) : Prop where
  texts : c.texts.keys = []
  files : c.connection.isOpen = true → ∀ file, filesOf c.stream file = none

variable {c c' : Client} {d : Snapshot} {k : Key} {m : Command}

theorem released_new : Released .new := ⟨rfl, fun _ _ => rfl⟩

theorem Released.holds (h : c.Released) (k : Key) : c.Holds k := by
  refine ⟨fun j hj => ?_, fun hopen file hfile => ?_⟩
  · rw [h.texts] at hj
    cases hj
  · rw [h.files hopen file] at hfile
    cases hfile

theorem Released.idles (h : c.Released) (hi : c.Idles c') : c'.Released := by
  refine ⟨hi.texts ▸ h.texts, fun hopen file => ?_⟩
  obtain ⟨hlive, hstream⟩ := hi.stream hopen
  rw [hstream]
  exact h.files hlive file

theorem mem_keys_sync {j : Key} (h : j ∈ (c.sync d).1.texts.keys) :
    j ∈ c.texts.keys ∨ (j == d.key) = true := by
  unfold sync at h
  split at h
  · exact .inl h
  · rename_i kind _
    by_cases hknown : c.texts.get? d.key = some d.text
    · rw [if_pos hknown] at h
      exact .inl h
    · rw [if_neg hknown] at h
      extract_lets closing at h
      cases hopen : c.connection.isOpen with
      | true =>
        obtain ⟨k', hgive, -⟩ :=
          give_of_isOpen hopen (closing ++ [.openFile d.key.path d.text (some kind)])
        rw [hgive] at h
        exact (Table.mem_keys_put h).imp_right fun heq => by rw [heq]; exact BEq.rfl
      | false =>
        rw [give_of_closed hopen] at h
        exact .inl h

theorem texts_ask (c : Client) (d : Snapshot) (m : Command) :
    (c.ask d m).1.texts = (c.sync d).1.texts := by
  unfold ask
  split <;> rename_i heq <;> rw [heq]
  rfl

theorem isOpen_of_ask (h : (c.ask d m).1.connection.isOpen = true) :
    c.connection.isOpen = true := by
  by_contra hclosed
  cases (isOpen_ask_of_closed (Bool.not_eq_true _ ▸ hclosed) d m).symm.trans h

namespace Holds

theorem idles (h : c.Holds k) (hi : c.Idles c') : c'.Holds k := by
  refine ⟨hi.texts ▸ h.texts, fun hopen file hfile => ?_⟩
  obtain ⟨hlive, hstream⟩ := hi.stream hopen
  rw [hstream] at hfile
  rw [hi.texts]
  exact h.files hlive file hfile

/-- When a document is given to the server, its file is the only one that is open. -/
theorem files_of_syncs (h : c.Holds d.key) (hlive : c.connection.isOpen = true)
    {r : Except Failure Bool} (hs : c.Syncs d (c', r)) {file : String}
    (hfile : (filesOf c'.stream file).isSome = true) :
    file = d.key.path ∧ c'.texts.contains d.key = true := by
  cases hs with
  | refused | known => exact h.files hlive file hfile
  | given hkind hnew hgives =>
    have hknown : (c.texts.put d.key d.text).contains d.key = true := by
      rw [Table.contains, Table.get?_put, if_pos BEq.rfl]
      rfl
    rw [stream_of_gives hgives, ← List.append_assoc, filesOf_concat, after_openFile] at hfile
    split_ifs at hfile with hpath hcontains
    · exact ⟨hpath.symm, hknown⟩
    · exact absurd (h.files hlive file (isSome_filesOf_of_close hfile)).1.symm hpath
    · rw [List.append_nil] at hfile
      exact absurd (h.files hlive file hfile).1.symm hpath

/-- A document is asked about. -/
theorem ask (h : c.Holds d.key) (hm : m.change? = none) : (c.ask d m).1.Holds d.key := by
  refine ⟨fun j hj => ?_, fun hopen file hfile => ?_⟩
  · rw [texts_ask] at hj
    exact (mem_keys_sync hj).elim (h.texts j) id
  · have hlive := isOpen_of_ask hopen
    obtain ⟨-, hask⟩ | ⟨c₁, hs, hlive₁, hask⟩ := ask_cases hlive d m
    · rw [hask] at hfile ⊢
      exact h.files hlive file hfile
    · rw [hask] at hfile ⊢
      rw [stream_of_gives (Connection.gives_call hlive₁ m true), filesOf_concat,
        after_of_other (by rw [hm]; exact nofun) (by rw [hm]; exact nofun)] at hfile
      exact h.files_of_syncs hlive hs hfile

/-- The document is taken away again. -/
theorem forget (h : c.Holds k) : (c.forget k).1.Released := by
  unfold Client.forget
  split
  · rename_i hknown
    have hnil := Table.keys_erase_of_all h.texts
    cases hopen : c.connection.isOpen with
    | true =>
      obtain ⟨k', hgive, hgives⟩ := give_of_isOpen (c := { c with texts := c.texts.erase k }) hopen
        [.closeFile k.path]
      simp only [hgive]
      refine ⟨hnil, fun _ file => ?_⟩
      rw [stream_of_gives hgives, filesOf_concat, after_closeFile]
      split_ifs with hfile
      · rfl
      · refine Option.not_isSome_iff_eq_none.1 fun hsome => hfile ?_
        exact (h.files hopen file hsome).1.symm
    | false =>
      simp only [give_of_closed (c := { c with texts := c.texts.erase k }) hopen]
      exact ⟨hnil, fun hlive => by cases hopen.symm.trans hlive⟩
  · rename_i hunknown
    refine ⟨Table.keys_eq_nil_of_get? h.texts (Option.not_isSome_iff_eq_none.1 hunknown),
      fun hlive file => ?_⟩
    exact Option.not_isSome_iff_eq_none.1 fun hsome => hunknown (h.files hlive file hsome).2

end Holds

end AnySpans.Server.Client

/-! ### The analyzer -/

namespace AnySpans.Passes

open AnySpans.Documents AnySpans.Syntax

/-- The document that a pass is about. -/
def Stage.document : Stage → Snapshot
  | .ready r | .done r _ => r.document
  | .asking k => k.request.document

namespace World

variable {w w' : World} {e : Event} {d : Snapshot} {p : Nat} {st : Stage}

/-- At most one document is open, and all passes that have not ended are about it. -/
structure Visits (d : Snapshot) (w : World) : Prop where
  sessions : ∀ j ∈ w.analyzer.registry.sessions.keys, (j == d.key) = true
  passes : ∀ (p : Nat) (st : Stage), w.passes[p]? = some st → st.isDone = false → st.document = d

theorem keys_setErrors (r : Registry) (k : Key) (errors : List Text.Range) :
    (r.setErrors k errors).sessions.keys = r.sessions.keys := by
  show (r.sessions.modify k _).keys = _
  unfold Table.modify
  split
  · exact Table.keys_put_of_get? ‹_›
  · rfl

theorem keys_storeTree (r : Registry) (t : Ticket) (d : Dialect) (tree : Tree) :
    (r.storeTree t d tree).sessions.keys = r.sessions.keys := by
  unfold Registry.storeTree
  split
  · rfl
  · exact Table.keys_put_of_get? (Registry.current?_eq_some_iff.1 ‹_›).1

theorem keys_commit? {r r' : Registry} {t : Ticket} {visible : Lines.LineRange}
    {hits : List Text.Range} (h : r.commit? t visible hits = some r') :
    r'.sessions.keys = r.sessions.keys := by
  obtain ⟨s, hs, rfl⟩ := Option.map_eq_some_iff.1 h
  exact Table.keys_put_of_get? (Registry.current?_eq_some_iff.1 hs).1

/-- The steps of passes neither open nor close a document. -/
theorem Steps.keys (hs : w.Steps e w') (he : e.pass? = some p) :
    w'.analyzer.registry.sessions.keys = w.analyzer.registry.sessions.keys := by
  cases hs with
  | begun hi hb =>
    cases hb with
    | cached => exact congrArg (fun r => r.sessions.keys) (Analyzer.registry_render _ _)
    | parsed => exact keys_storeTree _ _ _ _
    | _ => rfl
  | @committed _ k registry hi hdone hcommit =>
    exact (congrArg (fun r => r.sessions.keys) (Analyzer.registry_render
      { w.analyzer with registry } k.request.key)).trans (keys_commit? hcommit)
  | asked | skipped | answered | dropped | stale => rfl
  | _ => cases he

/-- A pass stays with its document. -/
theorem Becomes.document {s s' : Stage} (h : w.Becomes w' s s') (hs' : s'.isDone = false) :
    s.isDone = false ∧ s'.document = s.document := by
  cases h with
  | same => exact ⟨hs', rfl⟩
  | begun hb =>
    obtain ⟨k, rfl, rfl⟩ | ⟨o, rfl, -⟩ := hb.stage
    · exact ⟨rfl, rfl⟩
    · cases hs'
  | moved => exact ⟨rfl, rfl⟩
  | stale => cases hs'
  | committed => cases hs'

theorem Visits.pass (h : w.Visits d) (hs : w.step? e = some w') (he : e.pass? = some p) :
    w'.Visits d := by
  have hsteps := steps_of_step? hs
  refine ⟨(hsteps.keys he).symm ▸ h.sessions, fun j st hst hdone => ?_⟩
  have hadvance : e.isAdvance = true := by cases e <;> first | rfl | cases he
  have hlength := hsteps.length_passes hadvance
  have hlt : j < w.passes.length := hlength ▸ (List.getElem?_eq_some_iff.1 hst).1
  obtain ⟨st', hst', hbecomes⟩ := hsteps.becomes (List.getElem?_eq_getElem hlt)
  obtain rfl := Option.some.inj (hst.symm.trans hst')
  obtain ⟨hbefore, hdocument⟩ := hbecomes.document hdone
  exact hdocument.trans (h.passes j _ (List.getElem?_eq_getElem hlt) hbefore)

end World

namespace Schedule

variable {σ : Type} {s : Schedule σ}

/-- What happens in a schedule happens to its world; besides, passes are woken. -/
theorem alike_happen (s : Schedule σ) (e : Event) :
    Alike { s with world := s.world.step e } (s.happen e) := by
  have harranged : Alike { s with world := s.world.step e }
      { s with
        world := s.world.step e
        items := s.items ++ ((List.range (s.world.step e).passes.length).drop
          s.world.passes.length).map fun _ => [] } := ⟨rfl, rfl, rfl, rfl⟩
  exact (harranged.trans (alike_foldl alike_wakePass _ _)).trans (alike_foldl alike_wake _ _)

end Schedule

end AnySpans.Passes

/-! ### Checking files -/

namespace AnySpans.Check

open AnySpans.CommandLine AnySpans.Documents AnySpans.Files AnySpans.Lines AnySpans.Passes
open AnySpans.Report AnySpans.Server

variable {π : Type}

namespace Running

/-- The document of a check is the only one that is open anywhere. -/
structure Visits (d : Snapshot) (s : Running π) : Prop where
  world : s.world.Visits d
  client : s.source.exchange.client.Holds d.key

/-- No document is open in the analyzer, and none was left on the server. -/
structure Clear (s : Running π) : Prop where
  untracked : s.world.analyzer.registry.sessions.keys = []
  released : s.source.exchange.client.Released

/-- All passes have come to their ends. -/
def HasReturned (s : Running π) : Prop :=
  ∀ (p : Nat) (st : Stage), s.world.passes[p]? = some st → st.isDone = true

variable {p : Peer π} {s s' : Running π} {d : Snapshot} {es : List Passes.Event}

/-- A question is about the document of the check. -/
theorem holds_ask {a : Answers π} (h : a.exchange.client.Holds d.key) (now : Nat) (c : Call)
    (at' : Text.Position) : (a.ask now c d at').exchange.client.Holds d.key := by
  unfold Answers.ask
  split
  · exact h
  · rename_i place _
    have hask := h.ask (d := d) (m := .quickInfo d.key.path place) rfl
    dsimp only
    split <;> exact hask

/-- Whatever moves, the check stays with its document. -/
theorem Visits.move {may : Running π → Nat → Prop} {e : Option Passes.Event} (h : Visits d s)
    (hm : Schedule.Moves (Answers.source p) may s e s') : Visits d s' := by
  cases hm with
  | arranged | waited => exact ⟨h.world, h.client⟩
  | worked hwork => exact ⟨h.world, h.client.idles (Answers.idles_work hwork)⟩
  | stepped hp _ hs => exact ⟨h.world.pass hs hp, h.client⟩
  | @asked _ k _ _ _ hp hc hf hs =>
    have hdocument : k.request.document = d := h.world.passes _ _ hp rfl
    refine ⟨h.world.pass hs rfl, ?_⟩
    rw [hdocument]
    exact holds_ask h.client _ _ _
  | looked hp hq hl => exact ⟨h.world, (Answers.exchange_of_look s.now hl).symm ▸ h.client⟩
  | answered hp hq hl hs =>
    exact ⟨h.world.pass hs rfl, (Answers.exchange_of_look s.now hl).symm ▸ h.client⟩
  | expired hp hq hl hd ht hs =>
    have hsame := Answers.exchange_of_look s.now hl
    exact ⟨h.world.pass hs rfl, (hsame.symm ▸ h.client).idles (Answers.idles_forget _ _)⟩
  | dropped hp hc hs =>
    exact ⟨h.world.pass hs rfl, h.client.idles (Answers.idles_forget _ _)⟩

theorem Visits.runs {may : Running π → Nat → Prop} (h : Visits d s)
    (hr : Schedule.Runs (Answers.source p) may s es s') : Visits d s' := by
  induction hr with
  | refl => exact h
  | move _ hm ih => exact ih.move hm

theorem Visits.runUntil (h : Visits d s) (fuel turns : Nat) (stop : Running π → Bool) :
    Visits d (Schedule.runUntil (Answers.source p) fuel stop turns s) := by
  obtain ⟨es, hr⟩ := Schedule.runs_runUntil (Answers.source p) fuel stop turns s
  exact h.runs hr

theorem Visits.happen {e : Passes.Event} (h : Visits d s) (hw : (s.world.step e).Visits d) :
    Visits d (s.happen e) :=
  ⟨(s.alike_happen e).world ▸ hw, (s.alike_happen e).source ▸ h.client⟩

theorem Visits.errors (h : Visits d s) (k : Key) (ranges : List Text.Range) :
    Visits d (s.happen (.errors k ranges)) := by
  refine h.happen ⟨?_, h.world.passes⟩
  show ∀ j ∈ (s.world.analyzer.setErrors k ranges).registry.sessions.keys, _
  unfold Analyzer.setErrors
  split
  · rw [Analyzer.registry_render, World.keys_setErrors]
    exact h.world.sessions
  · exact h.world.sessions

theorem Visits.spawned (h : Visits d s) (w : LineRange) :
    Visits d (s.happen (.spawned ⟨d, w⟩)) := by
  refine h.happen ⟨h.world.sessions, fun p st hst hdone => ?_⟩
  obtain hst | ⟨rfl, -⟩ := World.stage_of_append hst
  · exact h.world.passes p st hst hdone
  · rfl

theorem Visits.errorsOf (h : Visits d s) (fuel : Nat) : Visits d (errorsOf p fuel s d).1 := by
  have hask := h.client.ask (m := .remarks d.key.path) rfl
  unfold Running.errorsOf Client.askRemarks
  dsimp only
  split
  · exact ⟨h.world, hask⟩
  · exact ⟨h.world, hask⟩
  · refine Visits.runUntil ?_ fuel fuel _
    exact ⟨h.world, hask⟩

theorem Visits.passes (h : Visits d s) (fuel : Nat) (ws : List LineRange) :
    Visits d (passes p fuel d ws s).1 := by
  induction ws generalizing s with
  | nil => exact h
  | cons w ws ih =>
    have hpass : Visits d (pass p fuel s ⟨d, w⟩).1 := (h.spawned w).runUntil fuel fuel _
    unfold Running.passes
    split <;> rename_i heq <;> rw [heq] at hpass
    · exact hpass
    · exact hpass
    · exact hpass
    · exact hpass
    · exact ih hpass

theorem Visits.inspect (h : Visits d s) (fuel : Nat) (a : Arguments) (file : String) :
    Visits d (inspect p fuel s a d file).1 := by
  have herrors := h.errorsOf (p := p) fuel
  unfold Running.inspect
  generalize Running.errorsOf p fuel s d = result at herrors ⊢
  obtain ⟨s₁, r⟩ := result
  replace herrors : Visits d s₁ := herrors
  cases r <;> dsimp only
  case' ok ranges =>
    replace herrors := herrors.errors d.key ranges
    generalize s₁.happen (.errors d.key ranges) = s₁ at herrors ⊢
  -- whether the errors were told makes no difference from here on
  all_goals
    split
    · exact herrors
    · exact herrors
    · have hpasses := fun ws => herrors.passes (p := p) fuel ws
      split <;> rename_i heq
      · exact (congrArg (fun r => Visits d r.1) heq).mp (hpasses _)
      · exact (congrArg (fun r => Visits d r.1) heq).mp (hpasses _)

/-- Taking the document away leaves nothing. -/
theorem Visits.release (h : Visits d s) : (release s d.key).Clear where
  untracked := by
    have halike := s.alike_happen (.closed d.key)
    show ((s.happen (.closed d.key)).world.analyzer.registry.sessions).keys = []
    rw [halike.world]
    show (s.world.analyzer.registry.close d.key).sessions.keys = []
    unfold Registry.close
    split
    · exact Table.keys_eq_nil_of_get? h.world.sessions ‹_›
    · exact Table.keys_erase_of_all h.world.sessions
  released := by
    have halike := s.alike_happen (.closed d.key)
    show ((s.happen (.closed d.key)).source.exchange.client.forget d.key).1.Released
    rw [halike.source]
    exact h.client.forget

/-- A check begins. -/
theorem Clear.opened (h : s.Clear) (hdone : s.HasReturned) :
    Visits d (s.happen (.opened d.key)) := by
  have hworld : World.Visits d (s.world.step (.opened d.key)) := by
    refine ⟨fun j hj => ?_, fun p st hst hnot => ?_⟩
    · have hj : j ∈ (s.world.analyzer.registry.open' d.key).sessions.keys := hj
      unfold Registry.open' at hj
      split at hj
      · rw [h.untracked] at hj
        cases hj
      · obtain hj | rfl := Table.mem_keys_put hj
        · rw [h.untracked] at hj
          cases hj
        · exact BEq.rfl
    · cases hnot.symm.trans (hdone p st hst)
  have halike := s.alike_happen (.opened d.key)
  exact ⟨halike.world ▸ hworld, halike.source ▸ h.released.holds d.key⟩

end Running

variable {p : Peer π} {s : Running π}

/-- However a check ends, no document stays open. -/
theorem clear_checkFile (h : s.Clear) (hdone : s.HasReturned) (fuel : Nat) (place : Surroundings)
    (a : Arguments) (file : String) : (checkFile p fuel place a s file).1.Clear := by
  unfold checkFile
  split
  · exact h
  · split
    · exact h
    · exact ((h.opened hdone).inspect fuel a file).release

theorem exists_of_bind_eq_ok {ε α β : Type} {x : Except ε α} {f : α → Except ε β} {b : β}
    (h : x >>= f = .ok b) : ∃ a, x = .ok a ∧ f a = .ok b := by
  cases x with
  | error => cases h
  | ok a => exact ⟨a, rfl, h⟩

theorem clear_begin' {place : Surroundings} {peer : π} {a : Arguments}
    (h : begin' place peer a = .ok s) : s.Clear ∧ s.HasReturned := by
  have hstart : ∀ c timeout, (Running.start c peer timeout).Clear := fun c timeout =>
    ⟨rfl, Client.released_new⟩
  obtain ⟨c, -, h⟩ := exists_of_bind_eq_ok h
  obtain ⟨l, -, h⟩ := exists_of_bind_eq_ok h
  obtain ⟨started, -, h⟩ := exists_of_bind_eq_ok h
  obtain rfl := Except.ok.inj h
  cases started with
  | server => exact ⟨hstart c l.timeout, nofun⟩
  | other =>
    have hidles := Exchange.idles_doDeed (Exchange.start peer l.timeout) .close
    exact ⟨⟨rfl, Client.released_new.idles hidles⟩, nofun⟩

/-! ### Checking files one after another -/

/-- Each file is checked in the state that the one before it left, whatever came of that one; the
states, and what was found or why it was not. -/
def checkEach (place : Surroundings) (p : Peer π) (fuel : Nat) (a : Arguments) :
    List String → Running π → List (Running π × Except FileFailure (List Finding))
  | [], _ => []
  | file :: files, s =>
    let r := checkFile p fuel place a s file
    r :: checkEach place p fuel a files r.1

/-- What was found in a file, if it could be checked. -/
def found (r : Running π × Except FileFailure (List Finding)) : List Finding :=
  r.2.toOption.getD []

def hasFailed (r : Running π × Except FileFailure (List Finding)) : Bool := !r.2.toBool

section

variable {place : Surroundings} {fuel : Nat} {a : Arguments} {files : List String}

theorem length_checkEach (place : Surroundings) (p : Peer π) (fuel : Nat) (a : Arguments)
    (files : List String) (s : Running π) :
    (checkEach place p fuel a files s).length = files.length := by
  induction files generalizing s with
  | nil => rfl
  | cons file files ih => exact congrArg (· + 1) (ih _)

/-- All files are checked, whether or not others could be. -/
theorem checkFiles_eq (place : Surroundings) (p : Peer π) (fuel : Nat) (a : Arguments)
    (files : List String) (s : Running π) : checkFiles place p fuel a files s =
      ((checkEach place p fuel a files s).flatMap found,
        (checkEach place p fuel a files s).any hasFailed) := by
  induction files generalizing s with
  | nil => rfl
  | cons file files ih =>
    rw [checkFiles, checkEach]
    dsimp only
    rcases checkFile p fuel place a s file with ⟨s', _ | found⟩ <;> dsimp only <;> rw [ih] <;> rfl

/-- After each check no document is open, if the checks before it have returned. -/
theorem clear_checkEach {before after : List (Running π × Except FileFailure (List Finding))}
    {r : Running π × Except FileFailure (List Finding)} (h : s.Clear) (hdone : s.HasReturned)
    (hr : checkEach place p fuel a files s = before ++ r :: after)
    (hreturned : ∀ r' ∈ before, r'.1.HasReturned) : r.1.Clear := by
  induction files generalizing s before with
  | nil => cases before <;> cases hr
  | cons file files ih =>
    have hclear := clear_checkFile (p := p) h hdone fuel place a file
    cases before with
    | nil =>
      obtain ⟨rfl, -⟩ := List.cons.inj hr
      exact hclear
    | cons r' before =>
      obtain ⟨rfl, hrest⟩ := List.cons.inj hr
      exact ih hclear (hreturned _ List.mem_cons_self) hrest
        fun r'' hr'' => hreturned r'' (List.mem_cons_of_mem _ hr'')

/-- Whatever the files are and whatever the type server does: after each check no document is open in
the analyzer or known to be on the server, and the commands have closed each file that they opened
unless the connection has ended.  All files are checked, and the program is content if none of them
failed and nothing was found. -/
theorem documents_released (p : Peer π) (fuel : Nat) {peer : π} (h : begin' place peer a = .ok s) :
    (∀ before r after, checkEach place p fuel a a.files s = before ++ r :: after →
      (∀ r' ∈ before, r'.1.HasReturned) → r.1.Clear) ∧
    (checkEach place p fuel a a.files s).length = a.files.length ∧
    checkFiles place p fuel a a.files s = ((checkEach place p fuel a a.files s).flatMap found,
      (checkEach place p fuel a a.files s).any hasFailed) ∧
    ((check place p peer fuel a).code = 0 ↔
      ∀ r ∈ checkEach place p fuel a a.files s, r.2 = .ok []) := by
  obtain ⟨hclear, hdone⟩ := clear_begin' h
  have hfiles := checkFiles_eq place p fuel a a.files s
  refine ⟨fun _ _ _ hr hreturned => clear_checkEach hclear hdone hr hreturned,
    length_checkEach place p fuel a a.files s, hfiles, ?_⟩
  have hcode : (check place p peer fuel a).code =
      if (checkEach place p fuel a a.files s).any hasFailed ||
        !((checkEach place p fuel a a.files s).flatMap found).isEmpty then 1 else 0 := by
    rw [check, h]
    dsimp only
    rw [hfiles]
  have hcontent : ∀ r : Running π × Except FileFailure (List Finding),
      r.2 = .ok [] ↔ hasFailed r = false ∧ found r = [] := by
    rintro ⟨s, _ | _⟩ <;> simp [hasFailed, found, Except.toBool, Except.toOption]
  rw [hcode]
  simp [hcontent, forall_and]

/-- A directory with a type server and one file that can be checked. -/
def workshop : Surroundings :=
  ⟨(Store.empty.add "/p/server" .server).add "/p/a.ts" (.file "a".toUTF8.toList false), "/p", "/c", []⟩

/-- A server that never says anything. -/
def silent : Peer Unit := ⟨fun x _ _ => (x, []), fun x _ => (x, []), fun _ => none⟩

def threeFiles : Arguments :=
  { Arguments.none with files := ["notes.txt", "missing.ts", "a.ts"], server := some "/p/server" }

/-- The first two files cannot be checked; the third one is checked all the same, and released. -/
theorem third_file_released : ∃ s, begin' workshop () threeFiles = .ok s ∧ ∀ fuel, ∃ r,
    checkEach workshop silent fuel threeFiles threeFiles.files s =
      [(s, .error .unsupported), (s, .error (.unreadable .missing)), r] ∧ r.1.Clear ∧
    (check workshop silent () fuel threeFiles).code ≠ 0 := by
  have hbegin : begin' workshop () threeFiles =
      .ok (Running.start Settings.Config.builtIn () 30000) := by rfl
  refine ⟨_, hbegin, fun fuel => ?_⟩
  obtain ⟨hclear, -, -, hcode⟩ := documents_released silent fuel hbegin
  have heach : checkEach workshop silent fuel threeFiles threeFiles.files
      (Running.start Settings.Config.builtIn () 30000) =
        [(Running.start Settings.Config.builtIn () 30000, .error .unsupported),
          (Running.start Settings.Config.builtIn () 30000, .error (.unreadable .missing)),
          checkFile silent fuel workshop threeFiles
            (Running.start Settings.Config.builtIn () 30000) "a.ts"] := rfl
  have hidle : (Running.start Settings.Config.builtIn () 30000).HasReturned := nofun
  refine ⟨_, heach, hclear [_, _] _ [] heach fun r hr => ?_, fun hzero => ?_⟩
  · obtain rfl | rfl : r = _ ∨ r = _ := by simpa using hr
    · exact hidle
    · exact hidle
  · cases hcode.1 hzero _ (heach ▸ List.mem_cons_self)

end

end AnySpans.Check
