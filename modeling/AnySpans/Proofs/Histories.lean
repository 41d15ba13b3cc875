import AnySpans.Proofs.LineSets
import AnySpans.Proofs.Sessions
import Mathlib.Data.List.DropRight

/-!
# Histories of documents

A registry holds no more about a document than the history of operations on it says: what was kept
since it was last opened or edited, the edits and the errors since it was opened.  The operations that
took effect are a `Past`, from which all of this is read off by looking back to the last operation of
some kind; `Registry.refines_past` compares it with the registry.  Operations that take no effect leave
the registry as it is (`Registry.perform_of_not_takes`).
-/

namespace AnySpans.Documents

open AnySpans.Lines AnySpans.Text AnySpans.Syntax AnySpans.Signature

/-! ### Looking back -/

namespace Operation

/-- Whether an operation is an opening. -/
def opens : Operation → Bool
  | open' _ => true
  | _ => false

/-- Whether an operation is an opening or a closing, with which a session begins or ends. -/
def bounds : Operation → Bool
  | open' _ | close _ => true
  | _ => false

/-- Whether an operation is an edit. -/
def edits : Operation → Bool
  | edit _ => true
  | _ => false

/-- Whether nothing is found in a document after an operation. -/
def clears (op : Operation) : Bool := op.bounds || op.edits

/-- The lines and the ranges that are kept by an operation. -/
def results? : Operation → Option (LineRange × List Range)
  | commit _ visible hits => some (visible, hits)
  | _ => none

/-- The ranges of compiler errors that an operation brings. -/
def errors? : Operation → Option (List Range)
  | setErrors _ errors => some errors
  | _ => none

/-- The tree that is kept by an operation, with its dialect. -/
def tree? : Operation → Option (Dialect × Tree)
  | storeTree _ d tree => some (d, tree)
  | _ => none

end Operation

/-- The operations on a document that took effect, in order. -/
abbrev Past := List Operation

namespace Past

variable (p : Past) (op : Operation)

/-- The operations since the last one of some kind. -/
def since (q : Operation → Bool) : List Operation := p.rtakeWhile fun op => !q op

/-- Whether the last opening or closing is an opening. -/
def isOpen : Bool := (p.filter Operation.bounds).getLast?.any Operation.opens

/-- The number of edits since the opening. -/
def generation : Nat := (p.since Operation.bounds).countP Operation.edits

/-- What was kept since the opening or the last edit. -/
def kept : List (LineRange × List Range) := (p.since Operation.clears).filterMap Operation.results?

/-- The ranges of compiler errors that came last since the opening. -/
def errors : List Range := ((p.since Operation.bounds).filterMap Operation.errors?).getLast?.getD []

/-- The tree that was kept last since the opening or the last edit. -/
def tree? : Option (Dialect × Tree) :=
  ((p.since Operation.clears).filterMap Operation.tree?).getLast?

/-- A line is in what was kept. -/
def Covered (line : Nat) : Prop := line < limit ∧ ∃ c ∈ p.kept, line ∈ c.1

/-- What was found in the present generation. -/
def analysis? : Option Analysis :=
  if p.kept = [] then none
  else some ⟨p.generation, .ofRanges (p.kept.map Prod.fst), p.kept.flatMap Prod.snd⟩

/-- The answer to the wish to look at some lines of a document. -/
inductive Plans (k : Key) (visible : LineRange) (d : Dialect) : Plan → Prop
  | closed : p.isOpen = false → Plans k visible d .closed
  | cached : p.isOpen = true → (∀ line ∈ visible, line < limit → p.Covered line) →
    Plans k visible d .cached
  | work {t : Ticket} {lines : IntervalSet} {token : Token} : p.isOpen = true → t.key = k →
    t.generation = p.generation → lines.Canonical →
    (∀ line, line ∈ lines ↔ (line ∈ visible ∧ line < limit) ∧ ¬ p.Covered line) →
    (∃ line, line ∈ lines) →
    Plans k visible d (.work t lines token ((p.tree?.filter fun x => x.1 == d).map Prod.snd))

/-! ### One more operation -/

theorem since_concat (q : Operation → Bool) :
    since (p ++ [op]) q = if q op then [] else p.since q ++ [op] := by
  rw [since, List.rtakeWhile_concat, since]
  cases q op <;> rfl

theorem isOpen_concat : isOpen (p ++ [op]) = if op.bounds then op.opens else p.isOpen := by
  rw [isOpen, isOpen, List.filter_append]
  cases h : op.bounds <;> simp [h]

theorem generation_concat : generation (p ++ [op]) =
    if op.bounds then 0 else p.generation + if op.edits then 1 else 0 := by
  rw [generation, generation, since_concat]
  cases op.bounds <;> simp [List.countP_append, List.countP_cons]

theorem kept_concat :
    kept (p ++ [op]) = if op.clears then [] else p.kept ++ op.results?.toList := by
  rw [kept, kept, since_concat]
  cases op.clears with
  | true => rfl
  | false => cases h : op.results? <;> simp [List.filterMap_append, h]

theorem errors_concat :
    errors (p ++ [op]) = if op.bounds then [] else op.errors?.getD p.errors := by
  rw [errors, errors, since_concat]
  cases op.bounds with
  | true => rfl
  | false => cases h : op.errors? <;> simp [List.filterMap_append, h]

theorem tree?_concat :
    tree? (p ++ [op]) = if op.clears then none else op.tree?.or p.tree? := by
  rw [tree?, tree?, since_concat]
  cases op.clears with
  | true => rfl
  | false => cases h : op.tree? <;> simp [List.filterMap_append, h]

theorem analysis?_congr {p p' : Past} (hk : p'.kept = p.kept) (hg : p'.generation = p.generation) :
    p'.analysis? = p.analysis? := by
  rw [analysis?, analysis?, hk, hg]

theorem analysis?_of_clears {op : Operation} (h : op.clears = true) :
    analysis? (p ++ [op]) = none := by
  rw [analysis?, kept_concat, if_pos h, if_pos rfl]

theorem analysis?_commit (t : Ticket) (visible : LineRange) (hits : List Range) :
    analysis? (p ++ [.commit t visible hits]) = some (match p.analysis? with
      | some a => { a with anys := a.anys ++ hits, checked := a.checked.add visible }
      | none => ⟨p.generation, .ofRange visible, hits⟩) := by
  have hk : kept (p ++ [.commit t visible hits]) = p.kept ++ [(visible, hits)] := p.kept_concat _
  have hg : generation (p ++ [.commit t visible hits]) = p.generation := p.generation_concat _
  have hne : p.kept ++ [(visible, hits)] ≠ [] := by simp
  rw [analysis?, hk, hg, if_neg hne, analysis?]
  by_cases h : p.kept = []
  · rw [if_pos h, h]
    simp [IntervalSet.ofRange]
  · rw [if_neg h, List.map_append, List.flatMap_append, IntervalSet.ofRanges, IntervalSet.extend,
      List.foldl_append]
    simp [IntervalSet.ofRanges, IntervalSet.extend]

theorem mem_checked_iff {a : Analysis} (h : p.analysis? = some a) (line : Nat) :
    line ∈ a.checked ↔ p.Covered line := by
  rw [analysis?] at h
  split at h
  · cases h
  · cases h
    rw [IntervalSet.ofRanges, IntervalSet.mem_extend_iff, or_iff_right (IntervalSet.not_mem_empty _)]
    simp [Covered]

end Past

namespace Registry

variable {r : Registry} {k : Key} {op : Operation} {p : Past} {s : Session}

/-! ### Operations that take effect -/

/-- Whether an operation takes effect: an opening if the document is not open, and what else is about a
document if it is; storing if the ticket is current. -/
def takes (r : Registry) : Operation → Bool
  | .open' k => !r.isOpen k
  | .close k | .edit k | .setErrors k _ => r.isOpen k
  | .plan _ _ _ => false
  | .storeTree t _ _ => r.isCurrent t
  | .commit t visible hits => (r.commit? t visible hits).isSome

/-- The operations on a document that take effect, of some that come one after another. -/
def past (k : Key) : Registry → List Operation → Past
  | _, [] => []
  | r, op :: ops =>
    (if op.key == k && r.takes op then [op] else []) ++ past k (r.perform op) ops

theorem past_concat (k : Key) (r : Registry) (ops : List Operation) (op : Operation) :
    past k r (ops ++ [op]) =
      past k r ops ++ if op.key == k && (r.run ops).takes op then [op] else [] := by
  induction ops generalizing r with
  | nil => simp [past, run]
  | cons op' ops ih =>
    rw [List.cons_append, past, ih, past, List.append_assoc]
    rfl

theorem session?_eq_none (h : r.isOpen k = false) : r.session? k = none :=
  Option.not_isSome_iff_eq_none.1 (Bool.eq_false_iff.1 h)

theorem current?_eq_none {t : Ticket} (h : r.isCurrent t = false) : r.current? t = none :=
  Option.not_isSome_iff_eq_none.1 (Bool.eq_false_iff.1 h)

/-- An operation that takes no effect changes nothing. -/
theorem perform_of_not_takes (h : r.takes op = false) : r.perform op = r := by
  cases op with
  | open' k => exact if_pos (by simpa [takes] using h)
  | close k =>
    rw [perform, close, session?_eq_none h]
  | edit k =>
    rw [perform, edit, session?_eq_none h]
  | setErrors k errors =>
    have : r.sessions.get? k = none := session?_eq_none h
    rw [perform, setErrors, Table.modify, this]
  | plan k visible d => rfl
  | storeTree t d tree =>
    rw [perform, storeTree, current?_eq_none h]
  | commit t visible hits =>
    rw [takes, commit?_isSome] at h
    rw [perform, commit, commit?, current?_eq_none h]
    rfl

/-- With a document that is not open only an opening takes effect. -/
theorem takes_of_not_open (h : r.isOpen op.key = false) (hopen : op.opens = false) :
    r.takes op = false := by
  have hcurrent : ∀ t : Ticket, r.isOpen t.key = false → r.isCurrent t = false := by
    intro t ht
    refine Bool.eq_false_iff.2 fun hc => ?_
    obtain ⟨s, hs, -⟩ := isCurrent_iff.1 hc
    rw [session?_eq_none ht] at hs
    cases hs
  cases op with
  | open' k => cases hopen
  | storeTree t d tree => exact hcurrent t h
  | commit t visible hits => exact (commit?_isSome visible hits).trans (hcurrent t h)
  | plan k visible d => rfl
  | _ => exact h

/-! ### What a registry holds of a past -/

/-- A session holds what a past says about its document. -/
structure Recounts (p : Past) (s : Session) : Prop where
  generation : s.generation = p.generation
  errors : s.errors = p.errors
  current? : s.current? = p.analysis?
  tree? : ∀ d, s.tree? d = (p.tree?.filter fun x => x.1 == d).map Prod.snd

/-- A registry holds what a past says about a document. -/
structure Told (r : Registry) (k : Key) (p : Past) : Prop where
  isOpen : r.isOpen k = p.isOpen
  recounts : ∀ s, r.session? k = some s → Recounts p s

theorem told_empty (k : Key) : empty.Told k [] := ⟨rfl, fun _ h => by cases h⟩

theorem Told.of_session? {r' : Registry} (h : r.Told k p) (hs : r'.session? k = r.session? k) :
    r'.Told k p where
  isOpen := by rw [Registry.isOpen, hs]; exact h.isOpen
  recounts s hs' := h.recounts s (hs ▸ hs')

/-- A session that goes on as one that recounts the past with the operation. -/
theorem told_of_session? {p' : Past} (hs : r.session? k = some s) (hopen : p'.isOpen = true)
    (h : Recounts p' s) : r.Told k p' where
  isOpen := by rw [Registry.isOpen, hs, hopen]; rfl
  recounts s' hs' := by
    obtain rfl := Option.some.inj (hs.symm.trans hs')
    exact h

theorem recounts_new {number : Nat} {token : Token} (k : Key) :
    Recounts (p ++ [.open' k]) (.new number token) where
  generation := (p.generation_concat (.open' k)).symm
  errors := (p.errors_concat (.open' k)).symm
  current? := by
    rw [p.analysis?_of_clears rfl]
    rfl
  tree? d := by
    rw [p.tree?_concat]
    rfl

theorem Recounts.edited (h : Recounts p s) (token : Token) (k : Key) :
    Recounts (p ++ [.edit k]) (s.edited token) where
  generation := by
    rw [p.generation_concat]
    exact congrArg (· + 1) h.generation
  errors := by
    rw [p.errors_concat]
    exact h.errors
  current? := by
    rw [p.analysis?_of_clears rfl]
    rfl
  tree? d := by
    rw [p.tree?_concat]
    rfl

theorem Recounts.judged (h : Recounts p s) (k : Key) (errors : List Range) :
    Recounts (p ++ [.setErrors k errors]) { s with errors } where
  generation := by
    rw [p.generation_concat]
    exact h.generation
  errors := (p.errors_concat (.setErrors k errors)).symm
  current? := by
    rw [Past.analysis?_congr ((p.kept_concat _).trans (List.append_nil _)) (p.generation_concat _)]
    exact h.current?
  tree? d := by
    rw [p.tree?_concat]
    exact h.tree? d

theorem Recounts.stored (h : Recounts p s) {t : Ticket} (ht : s.admits t = true) (d : Dialect)
    (tree : Tree) :
    Recounts (p ++ [.storeTree t d tree]) { s with tree := some ⟨tree, t.generation, d⟩ } where
  generation := by
    rw [p.generation_concat]
    exact h.generation
  errors := by
    rw [p.errors_concat]
    exact h.errors
  current? := by
    rw [Past.analysis?_congr ((p.kept_concat _).trans (List.append_nil _)) (p.generation_concat _)]
    exact h.current?
  tree? d' := by
    have hg : t.generation = s.generation := (admits_iff.1 ht).2.symm
    rw [p.tree?_concat]
    cases hd : d == d' <;> simp [Session.tree?, Option.filter, Operation.tree?, Operation.clears,
      Operation.bounds, Operation.edits, hg, hd]

theorem Recounts.committed (h : Recounts p s) (t : Ticket) (visible : LineRange)
    (hits : List Range) : Recounts (p ++ [.commit t visible hits]) (s.withResults visible hits) where
  generation := by
    rw [p.generation_concat]
    exact h.generation
  errors := by
    rw [p.errors_concat]
    exact h.errors
  current? := by
    have hc := p.analysis?_commit t visible hits
    rw [← h.current?, ← h.generation] at hc
    exact (s.current?_withResults visible hits).trans hc.symm
  tree? d := by
    rw [p.tree?_concat]
    exact h.tree? d

/-- An operation on the document that takes effect is added to its past. -/
theorem Told.perform (h : r.Told k p) (hkey : (op.key == k) = true) (ht : r.takes op = true) :
    (r.perform op).Told k (p ++ [op]) := by
  have hs : (r.perform op).session? k = r.effect op (r.session? k) :=
    (r.session?_perform_eq op k).trans (if_pos hkey)
  have hsession : ∀ {t : Ticket}, (t.key == k) = true → r.isCurrent t = true →
      ∃ s, r.session? k = some s ∧ s.admits t = true := by
    intro t hkey ht
    obtain ⟨s, hs, ha⟩ := isCurrent_iff.1 ht
    exact ⟨s, session?_congr hkey ▸ hs, ha⟩
  have hopen : ∀ {s : Session}, r.session? k = some s → p.isOpen = true := fun hs =>
    h.isOpen.symm.trans (isOpen_iff.2 ⟨_, hs⟩)
  cases op with
  | open' j =>
    have hnone : r.session? k = none := by
      rw [← session?_congr hkey]
      exact session?_eq_none (Bool.not_eq_eq_eq_not.1 ht)
    rw [hnone] at hs
    exact told_of_session? hs (p.isOpen_concat _) (recounts_new j)
  | close j =>
    refine ⟨?_, fun s hs' => ?_⟩
    · rw [Registry.isOpen, hs, p.isOpen_concat]
      rfl
    · rw [hs] at hs'
      cases hs'
  | edit j =>
    obtain ⟨s, hs₀⟩ := isOpen_iff.1 ht
    have hs₀ : r.session? k = some s := session?_congr hkey ▸ hs₀
    rw [hs₀] at hs
    exact told_of_session? hs ((p.isOpen_concat _).trans (hopen hs₀))
      ((h.recounts s hs₀).edited r.tokens j)
  | setErrors j errors =>
    obtain ⟨s, hs₀⟩ := isOpen_iff.1 ht
    have hs₀ : r.session? k = some s := session?_congr hkey ▸ hs₀
    rw [hs₀] at hs
    exact told_of_session? hs ((p.isOpen_concat _).trans (hopen hs₀))
      ((h.recounts s hs₀).judged j errors)
  | plan j visible d => cases ht
  | storeTree t d tree =>
    obtain ⟨s, hs₀, ha⟩ := hsession hkey ht
    rw [hs₀, effect, Option.map_some, if_pos ha] at hs
    exact told_of_session? hs ((p.isOpen_concat _).trans (hopen hs₀))
      ((h.recounts s hs₀).stored ha d tree)
  | commit t visible hits =>
    obtain ⟨s, hs₀, ha⟩ := hsession hkey ((commit?_isSome visible hits).symm.trans ht)
    rw [hs₀, effect, Option.map_some, if_pos ha] at hs
    exact told_of_session? hs ((p.isOpen_concat _).trans (hopen hs₀))
      ((h.recounts s hs₀).committed t visible hits)

/-- After any operations a registry holds what the past of a document says. -/
theorem told_run (ops : List Operation) (k : Key) : (empty.run ops).Told k (past k empty ops) := by
  induction ops using List.reverseRecOn with
  | nil => exact told_empty k
  | append_singleton ops op ih =>
    have hrun : empty.run (ops ++ [op]) = (empty.run ops).perform op := List.foldl_append
    rw [hrun, past_concat]
    cases ht : (empty.run ops).takes op with
    | false => rwa [perform_of_not_takes ht, Bool.and_false, if_neg Bool.false_ne_true,
        List.append_nil]
    | true =>
      rw [Bool.and_true]
      cases hkey : op.key == k with
      | false =>
        rw [if_neg Bool.false_ne_true, List.append_nil]
        exact ih.of_session? ((session?_perform_eq _ op k).trans (by rw [hkey]; rfl))
      | true => exact ih.perform hkey ht

/-! ### Answers -/

theorem Recounts.mem_uncovered_iff (h : Recounts p s) {visible : LineRange} {line : Nat} :
    line ∈ s.uncovered visible ↔ (line ∈ visible ∧ line < limit) ∧ ¬ p.Covered line := by
  rw [Session.mem_uncovered_iff, Session.checked, h.current?]
  refine and_congr_right fun _ => not_congr ?_
  cases ha : p.analysis? with
  | some a => exact p.mem_checked_iff ha line
  | none =>
    have hk : p.kept = [] := by
      by_contra hk
      rw [Past.analysis?, if_neg hk] at ha
      cases ha
    simp [Past.Covered, hk]

theorem canonical_uncovered (s : Session) (visible : LineRange) :
    (s.uncovered visible).Canonical := by
  unfold Session.uncovered
  split
  · exact IntervalSet.canonical_uncovered _ visible
  · exact IntervalSet.canonical_add ∅ visible

/-- A plan is answered as the past of the document calls for. -/
theorem Told.plans (h : r.Told k p) (visible : LineRange) (d : Dialect) :
    p.Plans k visible d (r.plan k visible d) := by
  unfold plan
  split
  · rename_i hs
    refine .closed ?_
    rw [← h.isOpen, Registry.isOpen, hs]
    rfl
  · rename_i s hs
    have hr := h.recounts s hs
    have hopen : p.isOpen = true := h.isOpen.symm.trans (isOpen_iff.2 ⟨s, hs⟩)
    have hlines : ∀ line, line ∈ s.uncovered visible ↔
        (line ∈ visible ∧ line < limit) ∧ ¬ p.Covered line := fun line => hr.mem_uncovered_iff
    have hempty := (canonical_uncovered s visible).isEmpty_iff
    dsimp only
    split
    · refine .cached hopen fun line hl hlt => not_not.1 fun hc => ?_
      exact hempty.1 ‹_› line ((hlines line).2 ⟨⟨hl, hlt⟩, hc⟩)
    · rename_i hne
      rw [hr.tree? d]
      refine .work hopen rfl hr.generation (canonical_uncovered s visible) hlines ?_
      by_contra hno
      exact hne (hempty.2 fun line hl => hno ⟨line, hl⟩)

theorem Told.generation?_eq (h : r.Told k p) :
    r.generation? k = if p.isOpen then some p.generation else none := by
  rw [← h.isOpen, generation?, Registry.isOpen]
  cases hs : r.session? k with
  | none => rfl
  | some s => exact congrArg some (h.recounts s hs).generation

theorem Told.analysis?_eq (h : r.Told k p) :
    r.analysis? k = if p.isOpen then p.analysis? else none := by
  rw [← h.isOpen, analysis?, Registry.isOpen]
  cases hs : r.session? k with
  | none => rfl
  | some s => exact (h.recounts s hs).current?

theorem shown_true (r : Registry) (k : Key) :
    r.shown k true = (r.analysis? k).map Analysis.anys := by
  rw [shown, analysis?, Option.map_bind]
  rfl

/-- What touches no error is what is on one side of all of them. -/
theorem retainActionable_eq (anys errors : List Range) : retainActionable anys errors =
    anys.filter fun x => decide (∀ e ∈ errors, e.stop < x.start ∨ x.stop < e.start) := by
  refine List.filter_congr fun x _ => ?_
  rw [Bool.eq_iff_iff, Bool.not_eq_true', List.any_eq_false, decide_eq_true_eq]
  refine forall₂_congr fun e _ => ?_
  rw [Range.intersects, Bool.and_eq_true, decide_eq_true_eq, decide_eq_true_eq, not_and_or,
    Position.not_le, Position.not_le]

theorem Told.shown_false (h : r.Told k p) : r.shown k false = (r.analysis? k).map fun a =>
    a.anys.filter fun x => decide (∀ e ∈ p.errors, e.stop < x.start ∨ x.stop < e.start) := by
  rw [shown, analysis?]
  cases hs : r.session? k with
  | none => rfl
  | some s =>
    rw [Option.bind_some, Option.bind_some, Session.shown, (h.recounts s hs).errors]
    simp only [Bool.false_eq_true, if_false, retainActionable_eq]

/-- After any operations a registry says about a document what its past says: whether it is open and
in which generation; that something was found exactly if something was kept in this generation, and
then that the lines of all that was kept were looked at, and the ranges in the order in which they were
kept; of these all are shown, or those on one side of each of the last errors.  A plan is answered
accordingly.  What takes no effect changes nothing, and no counter is above the number of
operations. -/
theorem refines_past (ops : List Operation) (k : Key) :
    let r := empty.run ops
    let p := past k empty ops
    (r.isOpen k = p.isOpen ∧ r.generation? k = if p.isOpen then some p.generation else none) ∧
      ((r.analysis? k).isSome = true ↔ p.isOpen = true ∧ p.kept ≠ []) ∧
      (∀ a, r.analysis? k = some a → a.generation = p.generation ∧
        (∀ line, line ∈ a.checked ↔ line < limit ∧ ∃ c ∈ p.kept, line ∈ c.1) ∧
        a.anys = p.kept.flatMap Prod.snd) ∧
      r.shown k true = (r.analysis? k).map Analysis.anys ∧
      (r.shown k false = (r.analysis? k).map fun a => a.anys.filter fun x =>
        decide (∀ e ∈ p.errors, e.stop < x.start ∨ x.stop < e.start)) ∧
      (∀ visible d, p.Plans k visible d (r.plan k visible d)) ∧
      (∀ t visible hits, r.commit? t visible hits = none → r.commit t visible hits = r) ∧
      (∀ t d tree, r.isCurrent t = false → r.storeTree t d tree = r) ∧
      (∀ j, r.isOpen j = true → r.open' j = r) ∧
      (∀ op : Operation, r.isOpen op.key = false → op.opens = false → r.perform op = r) ∧
      r.opened ≤ ops.length ∧ ∀ n, r.generation? k = some n → n ≤ ops.length := by
  intro r p
  have h : r.Told k p := told_run ops k
  have hanalysis := h.analysis?_eq
  have hcounters := countersLe_run ops
  refine ⟨⟨h.isOpen, h.generation?_eq⟩, ?_, fun a ha => ?_, r.shown_true k, h.shown_false, h.plans,
    fun t visible hits hnone => ?_, fun t d tree hstale => ?_, fun j hj => ?_,
    fun op hclosed hop => ?_, hcounters.opened, fun n hn => ?_⟩
  · rw [hanalysis, Past.analysis?]
    cases p.isOpen <;> by_cases hk : p.kept = [] <;> simp [hk]
  · rw [hanalysis] at ha
    split at ha
    · refine ⟨?_, p.mem_checked_iff ha, ?_⟩ <;>
      · rw [Past.analysis?] at ha
        split at ha
        · cases ha
        · cases ha
          rfl
    · cases ha
  · have htakes : r.takes (.commit t visible hits) = false := by rw [takes, hnone]; rfl
    exact perform_of_not_takes htakes
  · have htakes : r.takes (.storeTree t d tree) = false := hstale
    exact perform_of_not_takes htakes
  · have htakes : r.takes (.open' j) = false := by rw [takes, hj]; rfl
    exact perform_of_not_takes htakes
  · exact perform_of_not_takes (takes_of_not_open hclosed hop)
  · obtain ⟨s, hs, rfl⟩ := Option.map_eq_some_iff.1 hn
    exact hcounters.generation k s hs

/-- An opening of a document that is open is not in its past; errors outlive edits, but not the
closing. -/
example :
    let k : Key := ⟨"/a.ts"⟩
    let ops : List Operation := [.open' k, .setErrors k [.point ⟨1, 0⟩], .edit k, .open' k, .edit k]
    (past k empty ops).generation = 2 ∧ (past k empty ops).errors = [.point ⟨1, 0⟩] ∧
      (past k empty (ops ++ [.close k, .open' k])).errors = [] := by
  decide

end Registry

end AnySpans.Documents
