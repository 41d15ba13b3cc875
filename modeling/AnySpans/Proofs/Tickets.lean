import AnySpans.Documents.Registry

/-!
# Tickets

What can be done with a registry is an `Operation`.  A ticket is current until its document is edited
or closed, and exactly as long as the token handed out with it is not cancelled
(`Registry.ticket_current_iff`).  The reason is that at any time a ticket and its token belong to the
present generation of its document (`Registry.Holds`) or to one that is over for good
(`Registry.Lapsed`).
-/

namespace AnySpans.Documents

open AnySpans.Lines AnySpans.Text AnySpans.Syntax

/-! ### Operations -/

/-- What can be done with a registry. -/
inductive Operation where
  | open' (k : Key)
  | close (k : Key)
  | edit (k : Key)
  | setErrors (k : Key) (errors : List Range)
  | plan (k : Key) (visible : LineRange) (d : Dialect)
  | storeTree (t : Ticket) (d : Dialect) (tree : Tree)
  | commit (t : Ticket) (visible : LineRange) (hits : List Range)

/-- The document an operation is about. -/
def Operation.key : Operation → Key
  | open' k | close k | edit k | setErrors k _ | plan k _ _ => k
  | storeTree t _ _ | commit t _ _ => t.key

namespace Registry

/-- The registry after an operation. -/
def perform (r : Registry) : Operation → Registry
  | .open' k => r.open' k
  | .close k => r.close k
  | .edit k => r.edit k
  | .setErrors k errors => r.setErrors k errors
  | .plan _ _ _ => r
  | .storeTree t d tree => r.storeTree t d tree
  | .commit t visible hits => r.commit t visible hits

/-- The registry after some operations, one after another. -/
def run (r : Registry) (ops : List Operation) : Registry := ops.foldl perform r

/-- Whether an operation is an edit of a document that finds it open, or its closing. -/
def disturbs (r : Registry) (k : Key) : Operation → Bool
  | .edit j => j == k && r.isOpen j
  | .close j => j == k
  | _ => false

/-- Whether one of some operations, one after another, disturbs a document. -/
def disturbed (k : Key) : Registry → List Operation → Bool
  | _, [] => false
  | r, op :: ops => r.disturbs k op || disturbed k (r.perform op) ops

/-! ### What an operation does -/

variable {r r' : Registry} {j k : Key} {t : Ticket} {token : Token}

/-- What can become of a registry by an operation on a document; `ends` tells whether a generation
of the document ends. -/
inductive Change (r : Registry) (k : Key) : (ends : Bool) → Registry → Prop
  | same : Change r k false r
  | begun : r.session? k = none → Change r k false { r with
      sessions := r.sessions.put k (.new (r.opened + 1) r.tokens)
      opened := r.opened + 1
      tokens := r.tokens + 1 }
  | updated {s s' : Session} : r.session? k = some s → s'.number = s.number →
    s'.generation = s.generation → s'.token = s.token →
    Change r k false { r with sessions := r.sessions.put k s' }
  | edited {s : Session} : r.session? k = some s → Change r k true { r with
      sessions := r.sessions.put k (s.edited r.tokens)
      tokens := r.tokens + 1
      cancelled := s.token :: r.cancelled }
  | ended {s : Session} : r.session? k = some s → Change r k true { r with
      sessions := r.sessions.erase k
      cancelled := s.token :: r.cancelled }

theorem session?_congr (h : (j == k) = true) : r.session? j = r.session? k := r.sessions.get?_congr h

theorem isOpen_iff : r.isOpen k = true ↔ ∃ s, r.session? k = some s := Option.isSome_iff_exists

theorem current?_eq_some_iff {s : Session} :
    r.current? t = some s ↔ r.session? t.key = some s ∧ s.admits t = true :=
  Option.filter_eq_some_iff

theorem open'_change (r : Registry) (k : Key) : r.Change k false (r.open' k) := by
  unfold open'
  split
  · exact .same
  · rename_i h
    refine .begun ?_
    rwa [isOpen, Bool.not_eq_true, Option.isSome_eq_false_iff, Option.isNone_iff_eq_none] at h

theorem close_change (r : Registry) (k : Key) : r.Change k (r.isOpen k) (r.close k) := by
  unfold close isOpen
  cases h : r.session? k with
  | none => exact .same
  | some s => exact .ended h

theorem edit_change (r : Registry) (k : Key) : r.Change k (r.isOpen k) (r.edit k) := by
  unfold edit isOpen
  cases h : r.session? k with
  | none => exact .same
  | some s => exact .edited h

theorem setErrors_change (r : Registry) (k : Key) (errors : List Range) :
    r.Change k false (r.setErrors k errors) := by
  unfold setErrors Table.modify
  cases h : r.sessions.get? k with
  | none => exact .same
  | some s => exact .updated h rfl rfl rfl

theorem storeTree_change (r : Registry) (t : Ticket) (d : Dialect) (tree : Tree) :
    r.Change t.key false (r.storeTree t d tree) := by
  unfold storeTree
  cases h : r.current? t with
  | none => exact .same
  | some s => exact .updated (current?_eq_some_iff.1 h).1 rfl rfl rfl

theorem commit_change (r : Registry) (t : Ticket) (visible : LineRange) (hits : List Range) :
    r.Change t.key false (r.commit t visible hits) := by
  unfold commit commit?
  cases h : r.current? t with
  | none => exact .same
  | some s => exact .updated (current?_eq_some_iff.1 h).1 rfl rfl rfl

/-- Whether a generation of its document ends by an operation. -/
def ends (r : Registry) : Operation → Bool
  | .close k | .edit k => r.isOpen k
  | _ => false

theorem perform_change (r : Registry) (op : Operation) :
    r.Change op.key (r.ends op) (r.perform op) := by
  cases op with
  | open' k => exact r.open'_change k
  | close k => exact r.close_change k
  | edit k => exact r.edit_change k
  | setErrors k errors => exact r.setErrors_change k errors
  | plan k visible d => exact .same
  | storeTree t d tree => exact r.storeTree_change t d tree
  | commit t visible hits => exact r.commit_change t visible hits

/-! ### Sound registries -/

/-- Numbers and tokens are given out in order, each session has a token of its own, and the tokens of
sessions are not cancelled. -/
structure Sound (r : Registry) : Prop where
  number_le : ∀ k s, r.session? k = some s → s.number ≤ r.opened
  token_lt : ∀ k s, r.session? k = some s → s.token < r.tokens
  live : ∀ k s, r.session? k = some s → r.isCancelled s.token = false
  cancelled_lt : ∀ token, r.isCancelled token = true → token < r.tokens
  distinct : ∀ j k s s', r.session? j = some s → r.session? k = some s' → s.token = s'.token →
    (j == k) = true

theorem sound_empty : empty.Sound where
  number_le _ _ h := by cases h
  token_lt _ _ h := by cases h
  live _ _ h := by cases h
  cancelled_lt _ h := by cases h
  distinct _ _ _ _ h := by cases h

theorem isCancelled_cons {tokens opened : Nat} {sessions : Table Session} {token' : Token} :
    isCancelled ⟨sessions, opened, tokens, token :: r.cancelled⟩ token' =
      (token' == token || r.isCancelled token') := List.contains_cons

/-- A registry stays sound if the session of one document is replaced by one with the same token or
a new one, or by none. -/
theorem Sound.replace (h : r.Sound) {x : Option Session}
    (hs : ∀ j, r'.session? j = if (k == j) = true then x else r.session? j)
    (hopened : r.opened ≤ r'.opened) (htokens : r.tokens ≤ r'.tokens)
    (hnumber : ∀ s, x = some s → s.number ≤ r'.opened)
    (hc : ∀ token, r'.isCancelled token = true → r.isCancelled token = true ∨
      ∃ s, r.session? k = some s ∧ s.token = token ∧ ∀ s', x = some s' → s'.token ≠ token)
    (hx : ∀ s, x = some s → (r.tokens ≤ s.token ∧ s.token < r'.tokens) ∨
      ∃ s', r.session? k = some s' ∧ s'.token = s.token) : r'.Sound := by
  have hcases : ∀ j s, r'.session? j = some s →
      ((k == j) = true ∧ x = some s) ∨ ((k == j) = false ∧ r.session? j = some s) := by
    intro j s hj
    rw [hs j] at hj
    split at hj
    · exact .inl ⟨‹_›, hj⟩
    · exact .inr ⟨Bool.eq_false_iff.2 ‹_›, hj⟩
  have hlt : ∀ s, x = some s → s.token < r'.tokens := by
    intro s hs
    obtain ⟨-, hlt⟩ | ⟨s', hs', htoken⟩ := hx s hs
    · exact hlt
    · exact htoken ▸ Nat.lt_of_lt_of_le (h.token_lt k s' hs') htokens
  have hother : ∀ j s s', x = some s → r.session? j = some s' → s.token = s'.token →
      (k == j) = true := by
    intro j s s' hs hs' htoken
    obtain ⟨hge, -⟩ | ⟨s₀, hs₀, htoken₀⟩ := hx s hs
    · rw [htoken] at hge
      exact absurd (h.token_lt j s' hs') (Nat.not_lt.2 hge)
    · exact h.distinct k j s₀ s' hs₀ hs' (htoken₀.trans htoken)
  refine ⟨fun j s hj => ?_, fun j s hj => ?_, fun j s hj => ?_, fun token htoken => ?_,
    fun i j s s' hi hj htoken => ?_⟩
  · obtain ⟨-, hj⟩ | ⟨-, hj⟩ := hcases j s hj
    · exact hnumber s hj
    · exact Nat.le_trans (h.number_le j s hj) hopened
  · obtain ⟨-, hj⟩ | ⟨-, hj⟩ := hcases j s hj
    · exact hlt s hj
    · exact Nat.lt_of_lt_of_le (h.token_lt j s hj) htokens
  · refine Bool.eq_false_iff.2 fun hcancelled => ?_
    obtain ⟨-, hj⟩ | ⟨hne, hj⟩ := hcases j s hj
    · obtain hold | ⟨s₀, -, htoken, hfresh⟩ := hc _ hcancelled
      · obtain ⟨hge, -⟩ | ⟨s₀, hs₀, htoken⟩ := hx s hj
        · exact absurd (h.cancelled_lt _ hold) (Nat.not_lt.2 hge)
        · have := h.live k s₀ hs₀
          rw [htoken, hold] at this
          cases this
      · exact hfresh s hj rfl
    · obtain hold | ⟨s₀, hs₀, htoken, -⟩ := hc _ hcancelled
      · rw [h.live j s hj] at hold
        cases hold
      · rw [h.distinct k j s₀ s hs₀ hj htoken] at hne
        cases hne
  · obtain hold | ⟨s, hs, rfl, -⟩ := hc _ htoken
    · exact Nat.lt_of_lt_of_le (h.cancelled_lt token hold) htokens
    · exact Nat.lt_of_lt_of_le (h.token_lt k s hs) htokens
  · obtain ⟨hki, hi⟩ | ⟨-, hi⟩ := hcases i s hi <;> obtain ⟨hkj, hj⟩ | ⟨-, hj⟩ := hcases j s' hj
    · exact BEq.trans (BEq.symm hki) hkj
    · exact BEq.trans (BEq.symm hki) (hother j s s' hi hj htoken)
    · exact BEq.trans (BEq.symm (hother i s' s hj hi htoken.symm)) hkj
    · exact h.distinct i j s s' hi hj htoken

theorem Sound.change (h : r.Sound) {b : Bool} (hc : r.Change k b r') : r'.Sound := by
  cases hc with
  | same => exact h
  | begun hk =>
    refine h.replace (fun j => r.sessions.get?_put k j _) (Nat.le_succ _) (Nat.le_succ _) ?_
      (fun _ => .inl) ?_
    · rintro s ⟨⟩
      exact Nat.le_refl _
    · rintro s ⟨⟩
      exact .inl ⟨Nat.le_refl _, Nat.lt_succ_self _⟩
  | updated hk hn hg ht =>
    refine h.replace (fun j => r.sessions.get?_put k j _) (Nat.le_refl _) (Nat.le_refl _) ?_
      (fun _ => .inl) ?_
    · rintro s ⟨⟩
      exact hn ▸ h.number_le k _ hk
    · rintro s ⟨⟩
      exact .inr ⟨_, hk, ht.symm⟩
  | @edited s hk =>
    have hnew : s.token ≠ r.tokens := Nat.ne_of_lt (h.token_lt k s hk)
    refine h.replace (fun j => r.sessions.get?_put k j _) (Nat.le_refl _) (Nat.le_succ _) ?_
      (fun token htoken => ?_) ?_
    · rintro s' ⟨⟩
      exact h.number_le k s hk
    · rw [isCancelled_cons, Bool.or_eq_true, beq_iff_eq] at htoken
      obtain rfl | hold := htoken
      · refine .inr ⟨s, hk, rfl, ?_⟩
        rintro s' ⟨⟩
        exact hnew.symm
      · exact .inl hold
    · rintro s' ⟨⟩
      exact .inl ⟨Nat.le_refl _, Nat.lt_succ_self _⟩
  | @ended s hk =>
    refine h.replace (fun j => r.sessions.get?_erase k j) (Nat.le_refl _) (Nat.le_refl _) ?_
      (fun token htoken => ?_) ?_
    · rintro s' ⟨⟩
    · rw [isCancelled_cons, Bool.or_eq_true, beq_iff_eq] at htoken
      obtain rfl | hold := htoken
      · exact .inr ⟨s, hk, rfl, fun s' hs' => by cases hs'⟩
      · exact .inl hold
    · rintro s' ⟨⟩

theorem Sound.run (h : r.Sound) (ops : List Operation) : (r.run ops).Sound := by
  induction ops generalizing r with
  | nil => exact h
  | cons op ops ih => exact ih (h.change (r.perform_change op))

/-! ### Issued tickets -/

/-- A ticket and a token are those of the present generation of a document. -/
def Holds (r : Registry) (t : Ticket) (token : Token) : Prop :=
  ∃ s, r.session? t.key = some s ∧ s.admits t = true ∧ s.token = token

/-- A ticket and a token are those of a generation that is over: a session with the ticket's number
can only be in a later one. -/
structure Lapsed (r : Registry) (t : Ticket) (token : Token) : Prop where
  cancelled : r.isCancelled token = true
  session_le : t.session ≤ r.opened
  passed : ∀ s, r.session? t.key = some s → s.number = t.session → t.generation < s.generation

theorem isCurrent_iff :
    r.isCurrent t = true ↔ ∃ s, r.session? t.key = some s ∧ s.admits t = true := by
  simp only [isCurrent, Option.isSome_iff_exists, current?_eq_some_iff]

theorem admits_iff {s : Session} :
    s.admits t = true ↔ s.number = t.session ∧ s.generation = t.generation := by
  simp only [Session.admits, Bool.and_eq_true, beq_iff_eq]

theorem Holds.isCurrent (h : r.Holds t token) : r.isCurrent t = true := by
  obtain ⟨s, hs, hadmits, -⟩ := h
  exact isCurrent_iff.2 ⟨s, hs, hadmits⟩

theorem Holds.not_cancelled (h : r.Holds t token) (hr : r.Sound) :
    r.isCancelled token = false := by
  obtain ⟨s, hs, -, rfl⟩ := h
  exact hr.live t.key s hs

theorem Lapsed.not_current (h : r.Lapsed t token) : r.isCurrent t = false := by
  refine Bool.eq_false_iff.2 fun hc => ?_
  obtain ⟨s, hs, hadmits⟩ := isCurrent_iff.1 hc
  obtain ⟨hnumber, hgeneration⟩ := admits_iff.1 hadmits
  have := h.passed s hs hnumber
  omega

/-- Planned work is that of the present generation: its ticket, its token, its lines that were not
looked at, and its tree. -/
theorem exists_session_of_plan {visible : LineRange} {d : Dialect} {lines : IntervalSet}
    {tree : Option Tree} (h : r.plan k visible d = .work t lines token tree) :
    ∃ s, r.session? k = some s ∧ t = ⟨k, s.number, s.generation⟩ ∧ lines = s.uncovered visible ∧
      token = s.token ∧ tree = s.tree? d := by
  unfold plan at h
  split at h
  · cases h
  · rename_i s hs
    dsimp only at h
    split at h
    · cases h
    · cases h
      exact ⟨s, hs, rfl, rfl, rfl, rfl⟩

/-- Planning hands out the ticket and the token of the present generation. -/
theorem holds_of_plan {visible : LineRange} {d : Dialect} {lines : IntervalSet} {tree : Option Tree}
    (h : r.plan k visible d = .work t lines token tree) : t.key = k ∧ r.Holds t token := by
  obtain ⟨s, hs, rfl, -, rfl, -⟩ := exists_session_of_plan h
  exact ⟨rfl, s, hs, admits_iff.2 ⟨rfl, rfl⟩, rfl⟩

theorem Lapsed.change (h : r.Lapsed t token) {b : Bool} (hc : r.Change k b r') :
    r'.Lapsed t token := by
  obtain ⟨hcancelled, hle, hpassed⟩ := h
  cases hc with
  | same => exact ⟨hcancelled, hle, hpassed⟩
  | begun hk =>
    refine ⟨hcancelled, Nat.le_succ_of_le hle, fun s hs hnumber => ?_⟩
    rw [session?, Table.get?_put] at hs
    split at hs
    · cases hs
      exact absurd hnumber (Nat.ne_of_gt (Nat.lt_succ_of_le hle))
    · exact hpassed s hs hnumber
  | @updated s s' hk hn hg ht =>
    refine ⟨hcancelled, hle, fun s₁ hs₁ hnumber => ?_⟩
    rw [session?, Table.get?_put] at hs₁
    split at hs₁
    · rename_i hkey
      cases hs₁
      exact hg ▸ hpassed s (session?_congr hkey ▸ hk) (hn ▸ hnumber)
    · exact hpassed s₁ hs₁ hnumber
  | @edited s hk =>
    refine ⟨by rw [isCancelled_cons, hcancelled, Bool.or_true], hle, fun s₁ hs₁ hnumber => ?_⟩
    rw [session?, Table.get?_put] at hs₁
    split at hs₁
    · rename_i hkey
      cases hs₁
      exact Nat.lt_succ_of_lt (hpassed s (session?_congr hkey ▸ hk) hnumber)
    · exact hpassed s₁ hs₁ hnumber
  | @ended s hk =>
    refine ⟨by rw [isCancelled_cons, hcancelled, Bool.or_true], hle, fun s₁ hs₁ hnumber => ?_⟩
    rw [session?, Table.get?_erase] at hs₁
    split at hs₁
    · cases hs₁
    · exact hpassed s₁ hs₁ hnumber

/-- A ticket that holds goes on to hold unless a generation of its document ends; then it lapses. -/
theorem Holds.change (h : r.Holds t token) (hr : r.Sound) {b : Bool} (hc : r.Change k b r') :
    if (k == t.key && b) = true then r'.Lapsed t token else r'.Holds t token := by
  obtain ⟨s, hs, hadmits, rfl⟩ := h
  obtain ⟨hnumber, hgeneration⟩ := admits_iff.1 hadmits
  have hle : t.session ≤ r.opened := hnumber ▸ hr.number_le t.key s hs
  -- nothing happens to a document with another key
  have hother : ∀ {x : Option Session}, (k == t.key) = false →
      (if (k == t.key) = true then x else r.session? t.key) = some s := fun h => by rw [h]; exact hs
  cases hc with
  | same =>
    rw [Bool.and_false]
    exact ⟨s, hs, hadmits, rfl⟩
  | begun hk =>
    rw [Bool.and_false]
    refine ⟨s, ?_, hadmits, rfl⟩
    rw [session?, Table.get?_put]
    refine hother (Bool.eq_false_iff.2 fun hkey => ?_)
    rw [session?_congr hkey, hs] at hk
    cases hk
  | @updated s₀ s' hk hn hg ht =>
    rw [Bool.and_false]
    cases hkey : k == t.key with
    | false => exact ⟨s, (Table.get?_put ..).trans (hother hkey), hadmits, rfl⟩
    | true =>
      obtain rfl : s₀ = s := Option.some.inj (hk.symm.trans ((session?_congr hkey).trans hs))
      refine ⟨s', ?_, admits_iff.2 ⟨hn.trans hnumber, hg.trans hgeneration⟩, ht⟩
      rw [session?, Table.get?_put, hkey]
      rfl
  | @edited s₀ hk =>
    rw [Bool.and_true]
    cases hkey : k == t.key with
    | false => exact ⟨s, (Table.get?_put ..).trans (hother hkey), hadmits, rfl⟩
    | true =>
      obtain rfl : s₀ = s := Option.some.inj (hk.symm.trans ((session?_congr hkey).trans hs))
      refine ⟨by rw [isCancelled_cons, beq_self_eq_true, Bool.true_or], hle, fun s' hs' _ => ?_⟩
      rw [session?, Table.get?_put, hkey] at hs'
      cases hs'
      exact Nat.lt_succ_of_le (Nat.le_of_eq hgeneration.symm)
  | @ended s₀ hk =>
    rw [Bool.and_true]
    cases hkey : k == t.key with
    | false => exact ⟨s, (Table.get?_erase ..).trans (hother hkey), hadmits, rfl⟩
    | true =>
      obtain rfl : s₀ = s := Option.some.inj (hk.symm.trans ((session?_congr hkey).trans hs))
      refine ⟨by rw [isCancelled_cons, beq_self_eq_true, Bool.true_or], hle, fun s' hs' _ => ?_⟩
      rw [session?, Table.get?_erase, hkey] at hs'
      cases hs'

theorem Lapsed.run (h : r.Lapsed t token) (ops : List Operation) : (r.run ops).Lapsed t token := by
  induction ops generalizing r with
  | nil => exact h
  | cons op ops ih => exact ih (h.change (r.perform_change op))

/-- What disturbs an open document ends a generation of it. -/
theorem disturbs_of_holds (h : r.Holds t token) (op : Operation) :
    r.disturbs t.key op = (op.key == t.key && r.ends op) := by
  obtain ⟨s, hs, -⟩ := h
  cases op with
  | close k =>
    cases hkey : k == t.key with
    | false => simp [disturbs, Operation.key, hkey]
    | true =>
      have : r.isOpen k = true := isOpen_iff.2 ⟨s, (session?_congr hkey).trans hs⟩
      simp [disturbs, Operation.key, ends, hkey, this]
  | edit k => rfl
  | _ => simp [disturbs, ends]

/-- After some operations a ticket that held lapsed if one of them disturbed its document, and holds
otherwise. -/
theorem Holds.run (h : r.Holds t token) (hr : r.Sound) (ops : List Operation) :
    if disturbed t.key r ops = true then (r.run ops).Lapsed t token
    else (r.run ops).Holds t token := by
  induction ops generalizing r with
  | nil => exact h
  | cons op ops ih =>
    have hstep := h.change hr (r.perform_change op)
    rw [← disturbs_of_holds h op] at hstep
    rw [disturbed]
    cases hd : r.disturbs t.key op with
    | true =>
      rw [hd] at hstep
      exact hstep.run ops
    | false =>
      rw [hd] at hstep
      exact ih hstep (hr.change (r.perform_change op))

/-! ### Runs of a registry -/

/-- No number given out so far is above `n`. -/
structure CountersLe (r : Registry) (n : Nat) : Prop where
  opened : r.opened ≤ n
  generation : ∀ k s, r.session? k = some s → s.generation ≤ n

theorem CountersLe.change {n : Nat} (h : r.CountersLe n) {b : Bool} (hc : r.Change k b r') :
    r'.CountersLe (n + 1) := by
  have hopened : r.opened ≤ n + 1 := Nat.le_succ_of_le h.opened
  have hold : ∀ j s, r.session? j = some s → s.generation ≤ n + 1 := fun j s hs =>
    Nat.le_succ_of_le (h.generation j s hs)
  have hput : ∀ {s : Session}, s.generation ≤ n + 1 → ∀ j s',
      (r.sessions.put k s).get? j = some s' → s'.generation ≤ n + 1 := by
    intro s hs j s' hs'
    rw [Table.get?_put] at hs'
    split at hs'
    · cases hs'
      exact hs
    · exact hold j s' hs'
  cases hc with
  | same => exact ⟨hopened, hold⟩
  | begun _ => exact ⟨Nat.succ_le_succ h.opened, hput (Nat.zero_le _)⟩
  | updated hk _ hg _ => exact ⟨hopened, hput (hg ▸ hold k _ hk)⟩
  | edited hk => exact ⟨hopened, hput (Nat.succ_le_succ (h.generation k _ hk))⟩
  | ended _ =>
    refine ⟨hopened, fun j s hs => ?_⟩
    rw [session?, Table.get?_erase] at hs
    split at hs
    · cases hs
    · exact hold j s hs

/-- Sessions and generations are numbered by no more than the operations so far; so counters of a
machine word do not run over before as many operations. -/
theorem countersLe_run (ops : List Operation) : (empty.run ops).CountersLe ops.length := by
  have hall : ∀ (ops : List Operation) (r : Registry) (n : Nat), r.CountersLe n →
      (r.run ops).CountersLe (n + ops.length) := by
    intro ops
    induction ops with
    | nil => exact fun _ _ h => h
    | cons op ops ih =>
      intro r n h
      have := ih _ _ (h.change (r.perform_change op))
      rwa [Nat.add_assoc, Nat.add_comm 1] at this
  have := hall ops empty 0 ⟨Nat.le_refl _, fun _ _ h => by cases h⟩
  rwa [Nat.zero_add] at this

theorem commit?_isSome (visible : LineRange) (hits : List Range) :
    (r.commit? t visible hits).isSome = r.isCurrent t := Option.isSome_map

/-- A ticket handed out after some operations is current after some more exactly if none of these
edited its document, finding it open, or closed it; exactly then its token is not cancelled, and
exactly then results are kept with it.  A ticket that is not current never becomes so again. -/
theorem ticket_current_iff (before after : List Operation) {k : Key} {visible : LineRange}
    {d : Dialect} {t : Ticket} {lines : IntervalSet} {token : Token} {tree : Option Tree}
    (h : (empty.run before).plan k visible d = .work t lines token tree) :
    let then' := empty.run before
    let now := then'.run after
    (now.isCurrent t = true ↔ disturbed t.key then' after = false) ∧
      (now.isCurrent t = true ↔ now.isCancelled token = false) ∧
      (∀ visible hits, (now.commit? t visible hits).isSome = true ↔
        now.isCancelled token = false) ∧
      (now.isCurrent t = false → ∀ later, (now.run later).isCurrent t = false) ∧
      t.session ≤ before.length ∧ t.generation ≤ before.length := by
  have hsound : (empty.run before).Sound := sound_empty.run before
  obtain ⟨-, hholds⟩ := holds_of_plan h
  have hcounters : t.session ≤ before.length ∧ t.generation ≤ before.length := by
    have hle := countersLe_run before
    obtain ⟨s, hs, hadmits, -⟩ := hholds
    obtain ⟨hnumber, hgeneration⟩ := admits_iff.1 hadmits
    exact ⟨hnumber ▸ Nat.le_trans (hsound.number_le _ s hs) hle.opened,
      hgeneration ▸ hle.generation _ s hs⟩
  have hrun := hholds.run hsound after
  dsimp only
  simp only [commit?_isSome]
  cases hd : disturbed t.key (empty.run before) after with
  | true =>
    rw [hd] at hrun
    have hlapsed : ((empty.run before).run after).Lapsed t token := hrun
    have hcurrent := hlapsed.not_current
    have hcancelled := hlapsed.cancelled
    refine ⟨?_, ?_, fun _ _ => ?_, fun _ later => (hlapsed.run later).not_current, hcounters⟩
    · rw [hcurrent]
      decide
    · rw [hcurrent, hcancelled]
      decide
    · rw [hcurrent, hcancelled]
      decide
  | false =>
    rw [hd] at hrun
    have hholds : ((empty.run before).run after).Holds t token := hrun
    have hcurrent := hholds.isCurrent
    have hcancelled := hholds.not_cancelled (hsound.run after)
    refine ⟨?_, ?_, fun _ _ => ?_, fun h => ?_, hcounters⟩
    · rw [hcurrent]
      decide
    · rw [hcurrent, hcancelled]
      decide
    · rw [hcurrent, hcancelled]
      decide
    · rw [hcurrent] at h
      cases h

/-- The ticket of the first of two sessions that reach the same generation stays stale. -/
theorem ticket_stale_after_reopening :
    let k : Key := ⟨"/a.ts"⟩
    let visible : LineRange := ⟨0, 2, Nat.zero_le 2⟩
    let then' := empty.run [.open' k, .edit k]
    let now := then'.run [.close k, .open' k, .edit k]
    then'.plan k visible .typeScript = .work ⟨k, 1, 1⟩ (.ofRange visible) 1 none ∧
      now.generation? k = some 1 ∧ now.isCurrent ⟨k, 1, 1⟩ = false ∧ now.isCancelled 1 = true ∧
      ∀ later, (now.run later).isCurrent ⟨k, 1, 1⟩ = false := by
  have hplan : (empty.run [.open' ⟨"/a.ts"⟩, .edit ⟨"/a.ts"⟩]).plan ⟨"/a.ts"⟩
      ⟨0, 2, Nat.zero_le 2⟩ .typeScript =
      .work ⟨⟨"/a.ts"⟩, 1, 1⟩ (.ofRange ⟨0, 2, Nat.zero_le 2⟩) 1 none := by with_unfolding_all rfl
  obtain ⟨hcurrent, hcancelled, -, hstays, -⟩ := ticket_current_iff _
    [.close ⟨"/a.ts"⟩, .open' ⟨"/a.ts"⟩, .edit ⟨"/a.ts"⟩] hplan
  have hdisturbed : ¬ disturbed ⟨"/a.ts"⟩ (empty.run [.open' ⟨"/a.ts"⟩, .edit ⟨"/a.ts"⟩])
      [.close ⟨"/a.ts"⟩, .open' ⟨"/a.ts"⟩, .edit ⟨"/a.ts"⟩] = false := by decide
  have hstale := fun h => hdisturbed (hcurrent.1 h)
  refine ⟨hplan, by decide, Bool.eq_false_iff.2 hstale, ?_, hstays (Bool.eq_false_iff.2 hstale)⟩
  exact eq_true_of_ne_false fun h => hstale (hcancelled.2 h)

end Registry

end AnySpans.Documents
