import AnySpans.Proofs.Lines
import AnySpans.Proofs.Tickets

/-!
# Sessions

What an operation makes of the session of a document: one in which nothing was found yet, in a
generation that there was not before, or one in the same generation that has lost nothing of what was
found (`Registry.session?_perform`).
-/

namespace AnySpans.Documents

open AnySpans.Lines AnySpans.Text AnySpans.Syntax

namespace Session

variable {s s₀ : Session} {k : Key} {op : Operation}

/-- The lines that were looked at in the present generation. -/
def checked (s : Session) : IntervalSet := (s.current?.map Analysis.checked).getD ∅

/-- The ranges found in the present generation. -/
def anys (s : Session) : List Range := (s.current?.map Analysis.anys).getD []

/-- Nothing was found and no tree is kept. -/
structure Blank (s : Session) : Prop where
  analysis : s.analysis = none
  tree : s.tree = none

/-- Two sessions have the same number and are in the same generation. -/
structure Alike (s₀ s : Session) : Prop where
  number : s₀.number = s.number
  generation : s₀.generation = s.generation

/-- What an operation can make of the session of a document within a generation. -/
inductive Goes (s₀ : Session) (k : Key) : Operation → Session → Prop
  | same {op : Operation} : Goes s₀ k op s₀
  | judged {j : Key} {errors : List Range} : Goes s₀ k (.setErrors j errors) { s₀ with errors }
  | stored {t : Ticket} {d : Dialect} {tree : Tree} : (t.key == k) = true → s₀.admits t = true →
    Goes s₀ k (.storeTree t d tree) { s₀ with tree := some ⟨tree, t.generation, d⟩ }
  | committed {t : Ticket} {visible : LineRange} {hits : List Range} : (t.key == k) = true →
    s₀.admits t = true → Goes s₀ k (.commit t visible hits) (s₀.withResults visible hits)

theorem current?_of_blank (h : s.Blank) : s.current? = none := by
  rw [current?, h.analysis]
  rfl

theorem checked_of_blank (h : s.Blank) : s.checked = ∅ := by
  rw [checked, current?_of_blank h]
  rfl

theorem anys_of_blank (h : s.Blank) : s.anys = [] := by
  rw [anys, current?_of_blank h]
  rfl

theorem mem_uncovered_iff {visible : LineRange} {line : Nat} :
    line ∈ s.uncovered visible ↔ (line ∈ visible ∧ line < limit) ∧ line ∉ s.checked := by
  unfold uncovered checked
  cases s.current? with
  | none =>
    rw [IntervalSet.mem_ofRange_iff]
    exact (and_iff_left (IntervalSet.not_mem_empty line)).symm
  | some a => exact a.checked.mem_uncovered_iff visible line

/-- A ticket is for one session and generation. -/
theorem alike_of_admits {t : Ticket} (h : s₀.admits t = true) (h' : s.admits t = true) :
    s₀.Alike s := by
  obtain ⟨hn, hg⟩ := Registry.admits_iff.1 h
  obtain ⟨hn', hg'⟩ := Registry.admits_iff.1 h'
  exact ⟨hn.trans hn'.symm, hg.trans hg'.symm⟩

/-! ### Results -/

variable (s) (visible : LineRange) (hits : List Range)

theorem current?_withResults : (s.withResults visible hits).current? = some (match s.current? with
    | some a => { a with anys := a.anys ++ hits, checked := a.checked.add visible }
    | none => ⟨s.generation, .ofRange visible, hits⟩) := by
  unfold withResults
  cases h : s.current? with
  | none => exact Option.filter_some_pos (beq_self_eq_true s.generation)
  | some a => exact Option.filter_some_pos (Option.filter_eq_some_iff.1 h).2

theorem mem_checked_withResults {line : Nat} : line ∈ (s.withResults visible hits).checked ↔
    line ∈ s.checked ∨ line ∈ visible ∧ line < limit := by
  rw [checked, current?_withResults, checked]
  cases s.current? with
  | none =>
    refine (IntervalSet.mem_ofRange_iff visible line).trans (or_iff_right ?_).symm
    exact IntervalSet.not_mem_empty line
  | some a => exact a.checked.mem_add_iff visible line

theorem anys_withResults : (s.withResults visible hits).anys = s.anys ++ hits := by
  rw [anys, current?_withResults, anys]
  cases s.current? with
  | none => rfl
  | some a => rfl

variable {s}

theorem Goes.alike (h : s₀.Goes k op s) : s₀.Alike s := by
  cases h <;> exact ⟨rfl, rfl⟩

/-- Within a generation lines stay checked. -/
theorem Goes.checked_subset (h : s₀.Goes k op s) : ∀ line ∈ s₀.checked, line ∈ s.checked := by
  cases h with
  | committed => exact fun line hline => (mem_checked_withResults _ _ _).2 (.inl hline)
  | _ => exact fun _ hline => hline

end Session

namespace Registry

variable {r : Registry} {k : Key} {s : Session}

/-- An operation opens a document or edits it. -/
def Renews (k : Key) (op : Operation) : Prop :=
  ∃ j, (j == k) = true ∧ (op = .open' j ∨ op = .edit j)

/-- A session is the one that was put in or was there before. -/
theorem session?_of_put {j : Key} {s' : Session} (hs : (r.sessions.put j s').get? k = some s) :
    (j == k) = true ∧ s' = s ∨ r.session? k = some s := by
  rw [Table.get?_put] at hs
  split at hs
  · exact .inl ⟨‹_›, Option.some.inj hs⟩
  · exact .inr hs

/-- The session of a document after an operation is a new one or in a new generation, with nothing
found in it, or goes on from the one before. -/
theorem session?_perform {op : Operation} (hs : (r.perform op).session? k = some s) :
    (s.Blank ∧ Renews k op ∧ ∀ s₀, r.session? k = some s₀ → ¬ s₀.Alike s) ∨
      ∃ s₀, r.session? k = some s₀ ∧ s₀.Goes k op s := by
  have hsame : r.session? k = some s → ∃ s₀, r.session? k = some s₀ ∧ s₀.Goes k op s :=
    fun hs => ⟨s, hs, .same⟩
  cases op with
  | open' j =>
    rw [perform, open'] at hs
    split at hs
    · exact .inr (hsame hs)
    · rename_i hopen
      obtain ⟨hkey, rfl⟩ | hs := session?_of_put hs
      · refine .inl ⟨⟨rfl, rfl⟩, ⟨j, hkey, .inl rfl⟩, fun s₀ hs₀ => ?_⟩
        exact absurd (isOpen_iff.2 ⟨s₀, (session?_congr hkey).trans hs₀⟩) hopen
      · exact .inr (hsame hs)
  | close j =>
    rw [perform, close] at hs
    split at hs
    · exact .inr (hsame hs)
    · rw [session?, Table.get?_erase] at hs
      split at hs
      · cases hs
      · exact .inr (hsame hs)
  | edit j =>
    rw [perform, edit] at hs
    split at hs
    · exact .inr (hsame hs)
    · rename_i s₁ hs₁
      obtain ⟨hkey, rfl⟩ | hs := session?_of_put hs
      · refine .inl ⟨⟨rfl, rfl⟩, ⟨j, hkey, .inr rfl⟩, fun s₀ hs₀ halike => ?_⟩
        obtain rfl : s₁ = s₀ := Option.some.inj (hs₁.symm.trans ((session?_congr hkey).trans hs₀))
        exact Nat.ne_of_lt (Nat.lt_succ_self _) halike.generation
      · exact .inr (hsame hs)
  | setErrors j errors =>
    rw [perform, setErrors, session?, Table.get?_modify] at hs
    split at hs
    · obtain ⟨s₀, hs₀, rfl⟩ := Option.map_eq_some_iff.1 hs
      exact .inr ⟨s₀, hs₀, .judged⟩
    · exact .inr (hsame hs)
  | plan j visible d => exact .inr (hsame hs)
  | storeTree t d tree =>
    rw [perform, storeTree] at hs
    split at hs
    · exact .inr (hsame hs)
    · rename_i s₀ hcurrent
      obtain ⟨hs₀, hadmits⟩ := current?_eq_some_iff.1 hcurrent
      obtain ⟨hkey, rfl⟩ | hs := session?_of_put hs
      · exact .inr ⟨s₀, session?_congr hkey ▸ hs₀, .stored hkey hadmits⟩
      · exact .inr (hsame hs)
  | commit t visible hits =>
    rw [perform, commit, commit?] at hs
    cases hcurrent : r.current? t with
    | none =>
      rw [hcurrent] at hs
      exact .inr (hsame hs)
    | some s₀ =>
      obtain ⟨hs₀, hadmits⟩ := current?_eq_some_iff.1 hcurrent
      rw [hcurrent] at hs
      obtain ⟨hkey, rfl⟩ | hs := session?_of_put hs
      · exact .inr ⟨s₀, session?_congr hkey ▸ hs₀, .committed hkey hadmits⟩
      · exact .inr (hsame hs)

theorem session?_close (r : Registry) {j : Key} (h : (j == k) = true) :
    (r.close j).session? k = none := by
  unfold close
  split
  · rename_i hj
    exact session?_congr h ▸ hj
  · exact (r.sessions.get?_erase j k).trans (if_pos h)

/-- What an operation makes of the session of its document, or of there being none. -/
def effect (r : Registry) : Operation → Option Session → Option Session
  | .open' _, x => some (x.getD (.new (r.opened + 1) r.tokens))
  | .close _, _ => none
  | .edit _, x => x.map fun s => s.edited r.tokens
  | .setErrors _ errors, x => x.map fun s => { s with errors }
  | .plan _ _ _, x => x
  | .storeTree t d tree, x =>
    x.map fun s => if s.admits t then { s with tree := some ⟨tree, t.generation, d⟩ } else s
  | .commit t visible hits, x =>
    x.map fun s => if s.admits t then s.withResults visible hits else s

/-- A change of one document leaves the sessions of the others alone. -/
theorem Change.session?_of_ne {j : Key} {b : Bool} {r' : Registry} (h : r.Change j b r')
    (hne : (j == k) = false) : r'.session? k = r.session? k := by
  have hput : ∀ s : Session, (r.sessions.put j s).get? k = r.session? k := fun s => by
    rw [Table.get?_put, hne]
    rfl
  cases h with
  | same => rfl
  | begun _ => exact hput _
  | updated _ _ _ _ => exact hput _
  | edited _ => exact hput _
  | ended _ =>
    show (r.sessions.erase j).get? k = _
    rw [Table.get?_erase, hne]
    rfl

/-- A ticket that is not current is for another session or generation, if its document is open. -/
theorem session?_eq_map_of_not_current {t : Ticket} (h : r.current? t = none)
    (f : Session → Session) :
    r.session? t.key = (r.session? t.key).map fun s => if s.admits t then f s else s := by
  cases hs : r.session? t.key with
  | none => rfl
  | some s =>
    have hadmits : ¬ s.admits t = true := fun ha => by
      rw [current?_eq_some_iff.2 ⟨hs, ha⟩] at h
      cases h
    rw [Option.map_some, if_neg hadmits]

theorem session?_perform_key (r : Registry) (op : Operation) :
    (r.perform op).session? op.key = r.effect op (r.session? op.key) := by
  have hput : ∀ s : Session, (r.sessions.put op.key s).get? op.key = some s := fun s => by
    rw [Table.get?_put, if_pos BEq.rfl]
  cases op with
  | open' k =>
    show (r.open' k).session? k = some ((r.session? k).getD _)
    cases hs : r.session? k with
    | none =>
      rw [open', isOpen, hs]
      exact hput _
    | some s =>
      rw [open', isOpen, hs]
      exact hs
  | close k => exact r.session?_close BEq.rfl
  | edit k =>
    show (r.edit k).session? k = (r.session? k).map _
    cases hs : r.session? k with
    | none =>
      rw [edit, hs]
      exact hs
    | some s =>
      rw [edit, hs]
      exact hput _
  | setErrors k errors =>
    show (r.sessions.modify k _).get? k = _
    rw [Table.get?_modify, if_pos BEq.rfl]
    rfl
  | plan k visible d => rfl
  | storeTree t d tree =>
    rw [perform, storeTree]
    split
    · exact session?_eq_map_of_not_current ‹_› _
    · rename_i s hs
      obtain ⟨hs, ha⟩ := current?_eq_some_iff.1 hs
      rw [effect, Operation.key, hs]
      simp only [Option.map_some, if_pos ha]
      exact hput _
  | commit t visible hits =>
    show (r.commit t visible hits).session? t.key = (r.session? t.key).map _
    cases hs : r.current? t with
    | none =>
      rw [commit, commit?, hs]
      exact session?_eq_map_of_not_current hs _
    | some s =>
      obtain ⟨hs', ha⟩ := current?_eq_some_iff.1 hs
      rw [commit, commit?, hs, hs']
      refine (hput (s.withResults visible hits)).trans ?_
      rw [Option.map_some, if_pos ha]

/-- An operation changes the session of its document and no other. -/
theorem session?_perform_eq (r : Registry) (op : Operation) (k : Key) :
    (r.perform op).session? k =
      if (op.key == k) = true then r.effect op (r.session? k) else r.session? k := by
  cases hk : op.key == k with
  | false => exact (r.perform_change op).session?_of_ne hk
  | true =>
    rw [if_pos rfl, ← session?_congr hk, ← session?_congr hk]
    exact r.session?_perform_key op

/-- Results that are kept go to the session the ticket is for. -/
theorem session?_of_commit? {r' : Registry} {t : Ticket} {visible : LineRange} {hits : List Range}
    (h : r.commit? t visible hits = some r') (hk : (t.key == k) = true) :
    ∃ s₀, r.session? k = some s₀ ∧ r'.session? k = some (s₀.withResults visible hits) := by
  obtain ⟨s₀, hcurrent, rfl⟩ := Option.map_eq_some_iff.1 h
  refine ⟨s₀, session?_congr hk ▸ (current?_eq_some_iff.1 hcurrent).1, ?_⟩
  show (r.sessions.put t.key (s₀.withResults visible hits)).get? k = _
  rw [Table.get?_put, if_pos hk]

end Registry

end AnySpans.Documents
