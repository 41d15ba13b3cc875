import AnySpans.Server.Connection
import Mathlib.Data.List.Nodup
import Mathlib.Data.List.Perm.Subperm

/-!
# What happens on a connection

The ways in which a connection goes on, as one case for each incident (`Connection.Steps`), and what
each of its parts does: telling a caller what a request came to (`resolve`), handing a message on
(`route`) and coming to an end (`finish`).  A request that is not waited for is left as it is by all
of them, and one that is waited for when the connection ends comes to the first response to it among
the messages that were read, or fails.
-/

namespace AnySpans.Server

/-! ### Responses among messages -/

/-- The response that a message is. -/
def Message.response? : Message → Option Response
  | .response r => some r
  | .event _ => none

/-- The responses among messages. -/
def responses (ms : List Message) : List Response := ms.filterMap Message.response?

/-- A message is a response to a request. -/
def Message.Answers (m : Message) (n : Nat) : Prop := ∃ r, m = .response r ∧ r.request = n

/-- The first response to a request among messages. -/
def replyTo? (n : Nat) (ms : List Message) : Option Response :=
  (responses ms).find? fun r => r.request == n

theorem responses_append (ms ms' : List Message) :
    responses (ms ++ ms') = responses ms ++ responses ms' := List.filterMap_append

theorem replyTo?_cons_response {n : Nat} {r : Response} (h : r.request = n) (ms : List Message) :
    replyTo? n (.response r :: ms) = some r :=
  List.find?_cons_of_pos (beq_iff_eq.2 h)

theorem replyTo?_cons_of_not_answers {n : Nat} {m : Message} (h : ¬m.Answers n)
    (ms : List Message) : replyTo? n (m :: ms) = replyTo? n ms := by
  cases m with
  | event e => rfl
  | response r => exact List.find?_cons_of_neg fun heq => h ⟨r, rfl, beq_iff_eq.1 heq⟩

theorem replyTo?_append {n : Nat} {ms : List Message} {r : Response} (h : replyTo? n ms = some r)
    (ms' : List Message) : replyTo? n (ms ++ ms') = some r := by
  rw [replyTo?, responses_append, List.find?_append]
  exact congrArg (Option.or · _) h

theorem request_of_replyTo? {n : Nat} {ms : List Message} {r : Response}
    (h : replyTo? n ms = some r) : r.request = n := by
  have := List.find?_some (show (responses ms).find? _ = some r from h)
  simpa using this

namespace Connection

/-! ### Incidents -/

/-- A connection becomes another one at an incident, at which some messages are read. -/
inductive Steps (c : Connection) : Incident → List Message → Connection → Prop
  | called (m : Command) (isRequest : Bool) : Steps c (.called m isRequest) [] (c.call m isRequest)
  | wrote {o : Outgoing} {queue : List Outgoing} : c.isOpen = true → c.queue = o :: queue →
    Steps c .wrote [] { c with
      queue
      written := o :: c.written
      pending := if o.isRequest then c.pending ++ [o.number] else c.pending }
  | writeFailed {o : Outgoing} {queue : List Outgoing} : c.isOpen = true → c.queue = o :: queue →
    Steps c .writeFailed [] ({ c with queue }.resolve o.number (.error .brokenPipe)).finish
  | received (bytes : List UInt8) : Steps c (.received bytes) [] { c with input := c.input ++ bytes }
  | inputClosed : Steps c .inputClosed [] { c with inputEnded := true }
  | read {m : Message} {rest : List UInt8} : c.isOpen = true → readMessage c.input = .message m rest →
    Steps c .read [m] { c with inbox := c.inbox ++ [m], input := rest }
  | routed {m : Message} {inbox : List Message} : c.isOpen = true → c.inbox = m :: inbox →
    Steps c .routed [] ({ c with inbox }.route m)
  | ended : c.isOpen = true → Steps c .ended [] c.finish
  | brokeDown : c.isOpen = true → Steps c .brokeDown [] { c with inbox := [] }.finish
  | timedOut {n timeout : Nat} (command : String) : n ∈ c.awaited →
    Steps c (.timedOut n timeout) [] (c.resolve n (.error (.noResponse command timeout)))
  | abandoned (n : Nat) :
    Steps c (.abandoned n) [] { c with awaited := c.awaited.filter (· != n) }
  | dropped : c.isOpen = true → c.queue = [] → Steps c .dropped [] c.finish

/-- The message that is read at an incident, if any. -/
def readAt (c : Connection) : Incident → List Message
  | .read =>
    match readMessage c.input with
    | .message m _ => [m]
    | _ => []
  | _ => []

theorem steps_of_step? {c c' : Connection} {i : Incident} (h : c.step? i = some c') :
    c.Steps i (c.readAt i) c' := by
  cases i with
  | called m isRequest =>
    cases h
    exact .called m isRequest
  | wrote =>
    rw [step?] at h
    split at h
    · by_cases hopen : c.isOpen = true
      · rw [if_pos hopen] at h
        cases h
        exact .wrote hopen ‹_›
      · rw [if_neg hopen] at h
        cases h
    · cases h
  | writeFailed =>
    simp only [step?] at h
    split at h
    · split_ifs at h with hopen
      cases h
      exact .writeFailed hopen ‹_›
    · cases h
  | received bytes =>
    simp only [step?] at h
    split_ifs at h
    cases h
    exact .received bytes
  | inputClosed =>
    cases h
    exact .inputClosed
  | read =>
    simp only [step?] at h
    split at h
    · rename_i hread
      split_ifs at h with hopen
      cases h
      rw [readAt, hread]
      exact .read hopen hread
    · cases h
  | routed =>
    simp only [step?] at h
    split at h
    · split_ifs at h with hopen
      cases h
      exact .routed hopen ‹_›
    · cases h
  | ended =>
    simp only [step?] at h
    split_ifs at h with hopen
    cases h
    exact .ended hopen.1
  | brokeDown =>
    simp only [step?] at h
    split_ifs at h with hopen
    cases h
    exact .brokeDown hopen.1
  | timedOut n timeout =>
    simp only [step?] at h
    split_ifs at h with hn
    split at h
    · cases h
      exact .timedOut _ (List.contains_iff_mem.1 hn)
    · cases h
  | abandoned n =>
    cases h
    exact .abandoned n
  | dropped =>
    simp only [step?] at h
    split_ifs at h with hopen
    cases h
    exact .dropped hopen.1 hopen.2

/-- A connection becomes another one at some incidents, at which some messages are read. -/
inductive Run (c : Connection) : List Incident → List Message → Connection → Prop
  | start : Run c [] [] c
  | step {is : List Incident} {ms : List Message} {c' c'' : Connection} {i : Incident} :
    Run c is ms c' → c'.step? i = some c'' → Run c (is ++ [i]) (ms ++ c'.readAt i) c''

/-- The connection after some incidents; none if one of them is not possible. -/
def run? (c : Connection) (is : List Incident) : Option Connection := is.foldlM step? c

theorem exists_run_of_run? {c c' : Connection} {is : List Incident} (h : c.run? is = some c') :
    ∃ ms, Run c is ms c' := by
  have hgo : ∀ (rest done : List Incident) (ms : List Message) (c₁ : Connection), Run c done ms c₁ →
      c₁.run? rest = some c' → ∃ ms', Run c (done ++ rest) ms' c' := by
    intro rest
    induction rest with
    | nil =>
      intro done ms c₁ hrun hs
      cases hs
      exact ⟨ms, (List.append_nil done).symm ▸ hrun⟩
    | cons i rest ih =>
      intro done ms c₁ hrun hs
      obtain ⟨c₂, hstep, hrest⟩ := Option.bind_eq_some_iff.1 ((List.foldlM_cons ..).symm.trans hs)
      have := ih (done ++ [i]) _ c₂ (hrun.step hstep) hrest
      rwa [List.append_assoc, List.singleton_append] at this
  exact hgo is [] [] c .start h

/-! ### What requests come to -/

section

variable {c : Connection} {n k : Nat} {o : Outcome} {ns : List Nat}

theorem mem_of_outcome? (h : c.outcome? n = some o) : (n, o) ∈ c.outcomes := by
  obtain ⟨⟨k, o'⟩, hfind, rfl⟩ := Option.map_eq_some_iff.1 h
  have hk : k = n := by simpa using List.find?_some hfind
  exact hk ▸ List.mem_of_find?_eq_some hfind

theorem resolve_of_mem (h : n ∈ c.awaited) (o : Outcome) : c.resolve n o =
    { c with awaited := c.awaited.filter (· != n), outcomes := (n, o) :: c.outcomes } :=
  if_pos (List.contains_iff_mem.2 h)

theorem resolve_of_not_mem (h : n ∉ c.awaited) (o : Outcome) : c.resolve n o = c :=
  if_neg fun hn => h (List.contains_iff_mem.1 hn)

@[simp] theorem resolve_calls : (c.resolve n o).calls = c.calls := by unfold resolve; split <;> rfl

@[simp] theorem resolve_queue : (c.resolve n o).queue = c.queue := by unfold resolve; split <;> rfl

@[simp] theorem resolve_written : (c.resolve n o).written = c.written := by
  unfold resolve; split <;> rfl

@[simp] theorem resolve_pending : (c.resolve n o).pending = c.pending := by
  unfold resolve; split <;> rfl

@[simp] theorem resolve_inbox : (c.resolve n o).inbox = c.inbox := by unfold resolve; split <;> rfl

@[simp] theorem resolve_isOpen : (c.resolve n o).isOpen = c.isOpen := by unfold resolve; split <;> rfl

theorem mem_awaited_resolve_iff : k ∈ (c.resolve n o).awaited ↔ k ∈ c.awaited ∧ k ≠ n := by
  by_cases hn : n ∈ c.awaited
  · rw [resolve_of_mem hn, List.mem_filter, bne_iff_ne]
  · rw [resolve_of_not_mem hn]
    exact ⟨fun hk => ⟨hk, fun h => hn (h ▸ hk)⟩, And.left⟩

theorem outcome?_resolve_self (h : n ∈ c.awaited) (o : Outcome) :
    (c.resolve n o).outcome? n = some o := by
  rw [resolve_of_mem h, outcome?]
  simp

theorem outcome?_resolve_of_ne (h : k ≠ n) : (c.resolve n o).outcome? k = c.outcome? k := by
  by_cases hn : n ∈ c.awaited
  · have : ((n, o).1 == k) = false := by simpa using h.symm
    rw [resolve_of_mem hn, outcome?, List.find?_cons, this]
    rfl
  · rw [resolve_of_not_mem hn]

theorem outcome?_resolve_of_not_mem (h : k ∉ c.awaited) :
    (c.resolve n o).outcome? k = c.outcome? k := by
  by_cases hk : k = n
  · subst hk
    rw [resolve_of_not_mem h]
  · exact outcome?_resolve_of_ne hk

theorem kept_of_resolve (h : k ∈ c.awaited) (n : Nat) (o : Outcome) :
    k ∈ (c.resolve n o).awaited ∨ (c.resolve n o).outcome? k = some o := by
  by_cases hk : k = n
  · subst hk
    exact .inr (outcome?_resolve_self h o)
  · exact .inl (mem_awaited_resolve_iff.2 ⟨h, hk⟩)

/-! Several requests come to the same. -/

theorem mem_awaited_foldl_resolve_iff :
    k ∈ (ns.foldl (fun c n => c.resolve n o) c).awaited ↔ k ∈ c.awaited ∧ k ∉ ns := by
  induction ns generalizing c with
  | nil => simp
  | cons n ns ih =>
    rw [List.foldl_cons, ih, mem_awaited_resolve_iff, List.mem_cons]
    tauto

theorem outcome?_foldl_resolve_of_not_mem (h : k ∉ c.awaited) :
    (ns.foldl (fun c n => c.resolve n o) c).outcome? k = c.outcome? k := by
  induction ns generalizing c with
  | nil => rfl
  | cons n ns ih =>
    have hn : k ∉ (c.resolve n o).awaited := fun hk => h (mem_awaited_resolve_iff.1 hk).1
    exact (ih hn).trans (outcome?_resolve_of_not_mem h)

theorem outcome?_foldl_resolve (h : k ∈ c.awaited) (hns : k ∈ ns) :
    (ns.foldl (fun c n => c.resolve n o) c).outcome? k = some o := by
  induction ns generalizing c with
  | nil => cases hns
  | cons n ns ih =>
    by_cases hk : k = n
    · subst hk
      have hn : k ∉ (c.resolve k o).awaited := fun hk => (mem_awaited_resolve_iff.1 hk).2 rfl
      exact (outcome?_foldl_resolve_of_not_mem hn).trans (outcome?_resolve_self h o)
    · refine ih (mem_awaited_resolve_iff.2 ⟨h, hk⟩) ?_
      exact (List.mem_cons.1 hns).resolve_left hk

/-- What does not change when requests fail does not change when several do. -/
theorem foldl_resolve_eq {α : Type} (f : Connection → α)
    (h : ∀ (c : Connection) (n : Nat), f (c.resolve n o) = f c) :
    f (ns.foldl (fun c n => c.resolve n o) c) = f c := by
  induction ns generalizing c with
  | nil => rfl
  | cons n ns ih => exact ih.trans (h c n)

end

/-! ### Giving commands -/

section

variable {c : Connection} {m : Command} {isRequest : Bool} {n : Nat}

/-- The connection after a command was numbered. -/
def count (c : Connection) (isRequest : Bool) : Connection :=
  { c with
    calls := c.calls + 1
    awaited := if isRequest then (c.calls + 1) :: c.awaited else c.awaited }

theorem call_of_isOpen (h : c.isOpen = true) : c.call m isRequest =
    { c.count isRequest with queue := c.queue ++ [⟨c.calls + 1, m, isRequest⟩] } :=
  if_pos h

theorem call_of_closed (h : c.isOpen = false) : c.call m isRequest =
    (c.count isRequest).resolve (c.calls + 1) (.error .stopped) :=
  if_neg (Bool.eq_false_iff.1 h)

@[simp] theorem call_isOpen : (c.call m isRequest).isOpen = c.isOpen := by
  cases hopen : c.isOpen with
  | true =>
    rw [call_of_isOpen hopen]
    exact hopen
  | false =>
    rw [call_of_closed hopen, resolve_isOpen]
    exact hopen

theorem mem_awaited_count (h : n ∈ c.awaited) : n ∈ (c.count isRequest).awaited := by
  cases isRequest with
  | false => exact h
  | true => exact List.mem_cons_of_mem _ h

theorem mem_awaited_of_count (h : n ∈ (c.count isRequest).awaited) :
    n ∈ c.awaited ∨ n = c.calls + 1 ∧ isRequest = true := by
  cases isRequest with
  | false => exact .inl h
  | true => exact (List.mem_cons.1 h).elim (fun h => .inr ⟨h, rfl⟩) .inl

end

/-! ### Handing messages on -/

section

variable {c : Connection} {n : Nat} {m : Message} {ms : List Message} {r : Response}

theorem route_of_mem (h : r.request ∈ c.pending) : c.route (.response r) =
    { c with pending := c.pending.filter (· != r.request) }.resolve r.request (.ok r) :=
  if_pos (List.contains_iff_mem.2 h)

theorem route_of_not_mem (h : r.request ∉ c.pending) : c.route (.response r) = c :=
  if_neg fun hn => h (List.contains_iff_mem.1 hn)

theorem route_eq (m : Message) : c.route m = c ∨ ∃ r, m = .response r ∧ r.request ∈ c.pending ∧
    c.route m = { c with pending := c.pending.filter (· != r.request) }.resolve r.request (.ok r) := by
  cases m with
  | event e => exact .inl rfl
  | response r =>
    by_cases h : r.request ∈ c.pending
    · exact .inr ⟨r, rfl, h, route_of_mem h⟩
    · exact .inl (route_of_not_mem h)

@[simp] theorem route_calls : (c.route m).calls = c.calls := by
  obtain h | ⟨r, -, -, h⟩ := c.route_eq m <;> simp [h]

@[simp] theorem route_queue : (c.route m).queue = c.queue := by
  obtain h | ⟨r, -, -, h⟩ := c.route_eq m <;> simp [h]

@[simp] theorem route_written : (c.route m).written = c.written := by
  obtain h | ⟨r, -, -, h⟩ := c.route_eq m <;> simp [h]

@[simp] theorem route_inbox : (c.route m).inbox = c.inbox := by
  obtain h | ⟨r, -, -, h⟩ := c.route_eq m <;> simp [h]

@[simp] theorem route_isOpen : (c.route m).isOpen = c.isOpen := by
  obtain h | ⟨r, -, -, h⟩ := c.route_eq m <;> simp [h]

theorem mem_pending_of_route (h : n ∈ (c.route m).pending) : n ∈ c.pending := by
  obtain hr | ⟨r, -, -, hr⟩ := c.route_eq m
  · rwa [hr] at h
  · rw [hr, resolve_pending] at h
    exact (List.mem_filter.1 h).1

theorem mem_awaited_of_route (h : n ∈ (c.route m).awaited) : n ∈ c.awaited := by
  obtain hr | ⟨r, -, -, hr⟩ := c.route_eq m
  · rwa [hr] at h
  · rw [hr] at h
    exact (mem_awaited_resolve_iff.1 h).1

/-- A message that is handed on leaves all requests waiting but the one it is for. -/
theorem stays_of_route (hn : n ∈ c.awaited) (hm : n ∈ c.pending → ¬m.Answers n) :
    n ∈ (c.route m).awaited ∧ (n ∈ c.pending → n ∈ (c.route m).pending) := by
  obtain h | ⟨r, rfl, hr, h⟩ := c.route_eq m
  · rw [h]
    exact ⟨hn, id⟩
  · have hne : n ≠ r.request := by
      rintro rfl
      exact hm hr ⟨r, rfl, rfl⟩
    rw [h, mem_awaited_resolve_iff, resolve_pending]
    exact ⟨⟨hn, hne⟩, fun hp => List.mem_filter.2 ⟨hp, bne_iff_ne.2 hne⟩⟩

theorem outcome?_route (hp : r.request ∈ c.pending) (hn : r.request ∈ c.awaited) :
    (c.route (.response r)).outcome? r.request = some (.ok r) := by
  rw [route_of_mem hp]
  exact outcome?_resolve_self (by exact hn) _

theorem not_mem_awaited_route (hp : r.request ∈ c.pending) :
    r.request ∉ (c.route (.response r)).awaited := by
  rw [route_of_mem hp]
  exact fun h => (mem_awaited_resolve_iff.1 h).2 rfl

theorem outcome?_route_of_not_mem (h : n ∉ c.awaited) (m : Message) :
    (c.route m).outcome? n = c.outcome? n := by
  obtain hr | ⟨r, -, -, hr⟩ := c.route_eq m
  · rw [hr]
  · rw [hr, outcome?_resolve_of_not_mem (by exact h)]
    rfl

/-- A response to a request that is not waited for does nothing. -/
theorem route_of_not_awaited (h : r.request ∉ c.awaited) :
    (c.route (.response r)).outcomes = c.outcomes ∧ (c.route (.response r)).awaited = c.awaited := by
  by_cases hp : r.request ∈ c.pending
  · rw [route_of_mem hp, resolve_of_not_mem (by exact h)]
    exact ⟨rfl, rfl⟩
  · rw [route_of_not_mem hp]
    exact ⟨rfl, rfl⟩

theorem kept_of_route (h : n ∈ c.awaited) (m : Message) :
    n ∈ (c.route m).awaited ∨ ∃ o, (c.route m).outcome? n = some o := by
  obtain hr | ⟨r, -, -, hr⟩ := c.route_eq m
  · rw [hr]
    exact .inl h
  · rw [hr]
    exact (kept_of_resolve (by exact h) _ _).imp_right fun hr => ⟨_, hr⟩

/-! Several messages are handed on. -/

/-- What does not change when a message is handed on does not change when several are. -/
theorem foldl_route_eq {α : Type} (f : Connection → α)
    (h : ∀ (c : Connection) (m : Message), f (c.route m) = f c) : f (ms.foldl route c) = f c := by
  induction ms generalizing c with
  | nil => rfl
  | cons m ms ih => exact ih.trans (h c m)

theorem outcome?_foldl_route_of_not_mem (h : n ∉ c.awaited) (ms : List Message) :
    (ms.foldl route c).outcome? n = c.outcome? n := by
  induction ms generalizing c with
  | nil => rfl
  | cons m ms ih =>
    exact (ih fun hn => h (mem_awaited_of_route hn)).trans (outcome?_route_of_not_mem h m)

theorem mem_awaited_of_foldl_route (h : n ∈ (ms.foldl route c).awaited) : n ∈ c.awaited := by
  induction ms generalizing c with
  | nil => exact h
  | cons m ms ih => exact mem_awaited_of_route (ih h)

theorem mem_pending_of_foldl_route (h : n ∈ (ms.foldl route c).pending) : n ∈ c.pending := by
  induction ms generalizing c with
  | nil => exact h
  | cons m ms ih => exact mem_pending_of_route (ih h)

/-- Of several responses to a request the first one is what it comes to. -/
theorem outcome?_foldl_route (hp : n ∈ c.pending) (hn : n ∈ c.awaited)
    (hr : replyTo? n ms = some r) :
    n ∉ (ms.foldl route c).awaited ∧ (ms.foldl route c).outcome? n = some (.ok r) := by
  induction ms generalizing c with
  | nil => cases hr
  | cons m ms ih =>
    by_cases hm : m.Answers n
    · obtain ⟨r', rfl, rfl⟩ := hm
      obtain rfl := Option.some.inj ((replyTo?_cons_response rfl ms).symm.trans hr)
      have hdone := not_mem_awaited_route hp
      refine ⟨fun h => hdone (mem_awaited_of_foldl_route h), ?_⟩
      exact (outcome?_foldl_route_of_not_mem hdone ms).trans (outcome?_route hp hn)
    · obtain ⟨hn', hp'⟩ := stays_of_route hn fun _ => hm
      rw [replyTo?_cons_of_not_answers hm] at hr
      exact ih (hp' hp) hn' hr

theorem stays_of_foldl_route (hn : n ∈ c.awaited) (hms : n ∈ c.pending → replyTo? n ms = none) :
    n ∈ (ms.foldl route c).awaited ∧ (n ∈ c.pending → n ∈ (ms.foldl route c).pending) := by
  induction ms generalizing c with
  | nil => exact ⟨hn, id⟩
  | cons m ms ih =>
    have hm : n ∈ c.pending → ¬m.Answers n := by
      rintro hp ⟨r, rfl, hr⟩
      cases (replyTo?_cons_response hr ms).symm.trans (hms hp)
    obtain ⟨hn', hp'⟩ := stays_of_route hn hm
    obtain ⟨hn'', hp''⟩ := ih hn' fun hp => by
      have hp := mem_pending_of_route hp
      rw [← replyTo?_cons_of_not_answers (hm hp)]
      exact hms hp
    exact ⟨hn'', fun hp => hp'' (hp' hp)⟩

end

/-! ### The end -/

section

variable {c : Connection} {n : Nat} {r : Response}

/-- The requests that were given and have no response yet, whether they were written or not. -/
def waiting (c : Connection) : List Nat :=
  c.pending ++ (c.queue.filter Outgoing.isRequest).map Outgoing.number

/-- The connection after all messages that were read are handed on. -/
def handOn (c : Connection) : Connection := c.inbox.foldl route { c with inbox := [] }

theorem finish_eq (c : Connection) : c.finish =
    c.handOn.waiting.foldl (fun c n => c.resolve n (.error .stopped))
      { c.handOn with pending := [], queue := [], isOpen := false } := rfl

@[simp] theorem handOn_calls : c.handOn.calls = c.calls := foldl_route_eq calls fun _ _ => route_calls

@[simp] theorem handOn_queue : c.handOn.queue = c.queue := foldl_route_eq queue fun _ _ => route_queue

@[simp] theorem handOn_written : c.handOn.written = c.written :=
  foldl_route_eq written fun _ _ => route_written

@[simp] theorem handOn_inbox : c.handOn.inbox = [] := foldl_route_eq inbox fun _ _ => route_inbox

@[simp] theorem finish_calls : c.finish.calls = c.calls :=
  (foldl_resolve_eq calls fun _ _ => resolve_calls).trans handOn_calls

@[simp] theorem finish_queue : c.finish.queue = [] := foldl_resolve_eq queue fun _ _ => resolve_queue

@[simp] theorem finish_written : c.finish.written = c.written :=
  (foldl_resolve_eq written fun _ _ => resolve_written).trans handOn_written

@[simp] theorem finish_pending : c.finish.pending = [] :=
  foldl_resolve_eq pending fun _ _ => resolve_pending

@[simp] theorem finish_inbox : c.finish.inbox = [] :=
  (foldl_resolve_eq inbox fun _ _ => resolve_inbox).trans handOn_inbox

@[simp] theorem finish_isOpen : c.finish.isOpen = false :=
  foldl_resolve_eq isOpen fun _ _ => resolve_isOpen

theorem mem_awaited_finish_iff :
    n ∈ c.finish.awaited ↔ n ∈ c.handOn.awaited ∧ n ∉ c.handOn.waiting := by
  rw [finish_eq, mem_awaited_foldl_resolve_iff]

/-- What is not waited for after the messages were handed on stays as it is. -/
theorem outcome?_finish_eq_handOn (h : n ∉ c.handOn.awaited) :
    c.finish.outcome? n = c.handOn.outcome? n := by
  rw [finish_eq, outcome?_foldl_resolve_of_not_mem (by exact h)]
  rfl

theorem outcome?_finish_of_not_mem (h : n ∉ c.awaited) : c.finish.outcome? n = c.outcome? n := by
  have hleft : n ∉ c.handOn.awaited := fun hn =>
    h (mem_awaited_of_foldl_route (c := { c with inbox := [] }) hn)
  rw [outcome?_finish_eq_handOn hleft, handOn, outcome?_foldl_route_of_not_mem (by exact h)]
  rfl

/-- A request whose response was read comes to it when the connection ends. -/
theorem outcome?_finish_of_reply (hp : n ∈ c.pending) (hn : n ∈ c.awaited)
    (hr : replyTo? n c.inbox = some r) : c.finish.outcome? n = some (.ok r) := by
  obtain ⟨hleft, hok⟩ := outcome?_foldl_route (c := { c with inbox := [] }) hp hn hr
  exact (outcome?_finish_eq_handOn hleft).trans hok

/-- All other requests fail then. -/
theorem outcome?_finish_of_no_reply (hw : n ∈ c.waiting) (hn : n ∈ c.awaited)
    (hr : n ∈ c.pending → replyTo? n c.inbox = none) :
    c.finish.outcome? n = some (.error .stopped) := by
  obtain ⟨hn', hp'⟩ := stays_of_foldl_route (c := { c with inbox := [] }) hn hr
  have hw' : n ∈ c.handOn.waiting := by
    rw [waiting, handOn_queue]
    exact (List.mem_append.1 hw).elim (fun hp => List.mem_append_left _ (hp' hp))
      (List.mem_append_right _)
  exact outcome?_foldl_resolve hn' hw'

end

end Connection

end AnySpans.Server
