import AnySpans.Proofs.Connections

/-!
# Requests and their responses

Whatever happens to a connection, a request comes to a response with its own number or fails, once
and for good, and no response serves twice.  A response that was read for a request that was written
and still waits is what the request comes to, also when the connection ends, and all requests without
one fail then (`Connection.requests_correlated`).  Only where the connection breaks down, because a
body is announced that cannot be held, responses that were read are lost
(`Connection.response_lost`).
-/

namespace AnySpans.Server

/-- An incident by which a request is no longer waited for. -/
def Incident.GivesUp (n : Nat) : Incident → Prop
  | .timedOut k _ => k = n
  | .abandoned k => k = n
  | _ => False

namespace Connection

/-- The responses that requests came to, the latest first. -/
def accepted (c : Connection) : List Response := c.outcomes.filterMap fun o => o.2.toOption

/-! ### Waiting for an outcome -/

/-- A request is waited for or has come to something, but not both, and to a response only with its
own number. -/
structure Tidy (c : Connection) : Prop where
  awaited_le : ∀ n ∈ c.awaited, n ≤ c.calls
  outcome_le : ∀ o ∈ c.outcomes, o.1 ≤ c.calls
  apart : ∀ o ∈ c.outcomes, o.1 ∉ c.awaited
  once : (c.outcomes.map Prod.fst).Nodup
  own : ∀ o ∈ c.outcomes, ∀ r, o.2 = .ok r → r.request = o.1

section

variable {c c' : Connection} {n : Nat} {o : Outcome} {m : Message} {ms : List Message} {ns : List Nat}
  {f : Failure}

namespace Tidy

theorem congr (h : c.Tidy) (ha : c'.awaited ⊆ c.awaited) (ho : c'.outcomes = c.outcomes)
    (hc : c'.calls = c.calls) : c'.Tidy where
  awaited_le n hn := hc ▸ h.awaited_le n (ha hn)
  outcome_le o hn := hc ▸ h.outcome_le o (ho ▸ hn)
  apart o hn hmem := h.apart o (ho ▸ hn) (ha hmem)
  once := ho ▸ h.once
  own := ho ▸ h.own

theorem not_mem_awaited (h : c.Tidy) (ho : c.outcome? n = some o) : n ∉ c.awaited :=
  h.apart _ (mem_of_outcome? ho)

theorem le_calls (h : c.Tidy) (ho : c.outcome? n = some o) : n ≤ c.calls :=
  h.outcome_le _ (mem_of_outcome? ho)

theorem resolve (h : c.Tidy) (ho : ∀ r, o = .ok r → r.request = n) : (c.resolve n o).Tidy := by
  by_cases hn : n ∈ c.awaited
  · rw [resolve_of_mem hn]
    refine ⟨fun k hk => h.awaited_le k (List.mem_filter.1 hk).1, ?_, ?_, ?_, ?_⟩
    · intro p hp
      rcases List.mem_cons.1 hp with rfl | hp
      · exact h.awaited_le n hn
      · exact h.outcome_le p hp
    · intro p hp hk
      obtain ⟨hk, hne⟩ := List.mem_filter.1 hk
      rcases List.mem_cons.1 hp with rfl | hp
      · simp at hne
      · exact h.apart p hp hk
    · refine List.nodup_cons.2 ⟨fun hmem => ?_, h.once⟩
      obtain ⟨p, hp, rfl⟩ := List.mem_map.1 hmem
      exact h.apart p hp hn
    · intro p hp
      rcases List.mem_cons.1 hp with rfl | hp
      · exact ho
      · exact h.own p hp
  · rwa [resolve_of_not_mem hn]

theorem fail (h : c.Tidy) (n : Nat) (f : Failure) : (c.resolve n (.error f)).Tidy :=
  h.resolve fun r hr => by cases hr

theorem foldl_fail (h : c.Tidy) (ns : List Nat) (f : Failure) :
    (ns.foldl (fun c n => c.resolve n (.error f)) c).Tidy := by
  induction ns generalizing c with
  | nil => exact h
  | cons n ns ih => exact ih (h.fail n f)

theorem route (h : c.Tidy) (m : Message) : (c.route m).Tidy := by
  obtain hr | ⟨r, -, -, hr⟩ := c.route_eq m
  · rwa [hr]
  · rw [hr]
    refine Tidy.resolve (h.congr (fun _ hn => hn) rfl rfl) ?_
    rintro r' ⟨⟩
    rfl

theorem foldl_route (h : c.Tidy) (ms : List Message) : (ms.foldl Connection.route c).Tidy := by
  induction ms generalizing c with
  | nil => exact h
  | cons m ms ih => exact ih (h.route m)

theorem finish (h : c.Tidy) : c.finish.Tidy := by
  have hread : Tidy { c with inbox := [] } := h.congr (fun _ hn => hn) rfl rfl
  have hon : c.handOn.Tidy := hread.foldl_route c.inbox
  have hended : Tidy { c.handOn with pending := [], queue := [], isOpen := false } :=
    hon.congr (fun _ hn => hn) rfl rfl
  exact hended.foldl_fail _ _

theorem count (h : c.Tidy) (isRequest : Bool) : (c.count isRequest).Tidy where
  awaited_le n hn := by
    obtain hn | ⟨rfl, -⟩ := mem_awaited_of_count hn
    · exact Nat.le_succ_of_le (h.awaited_le n hn)
    · exact Nat.le_refl _
  outcome_le o ho := Nat.le_succ_of_le (h.outcome_le o ho)
  apart o ho hn := by
    obtain hn | ⟨hnew, -⟩ := mem_awaited_of_count hn
    · exact h.apart o ho hn
    · have hle : o.1 ≤ c.calls := h.outcome_le o ho
      omega
  once := h.once
  own := h.own

theorem call (h : c.Tidy) (m : Command) (isRequest : Bool) : (c.call m isRequest).Tidy := by
  cases hopen : c.isOpen with
  | true =>
    rw [call_of_isOpen hopen]
    exact (h.count isRequest).congr (fun _ hn => hn) rfl rfl
  | false =>
    rw [call_of_closed hopen]
    exact (h.count isRequest).fail _ _

end Tidy

/-! ### Waiting for a response -/

/-- Whoever waits for a request waits for one that has no response yet. -/
def Placed (c : Connection) : Prop := ∀ n ∈ c.awaited, n ∈ c.waiting

namespace Placed

theorem resolve (h : c.Placed) (n : Nat) (o : Outcome) : (c.resolve n o).Placed := by
  intro k hk
  have := h k (mem_awaited_resolve_iff.1 hk).1
  simpa [waiting] using this

theorem route (h : c.Placed) (m : Message) : (c.route m).Placed := by
  intro n hn
  obtain hr | ⟨r, -, -, hr⟩ := c.route_eq m
  · rw [hr] at hn ⊢
    exact h n hn
  · rw [hr, mem_awaited_resolve_iff] at hn
    obtain hp | hq := List.mem_append.1 (h n hn.1)
    · have : n ∈ c.pending.filter (· != r.request) := List.mem_filter.2 ⟨hp, bne_iff_ne.2 hn.2⟩
      simpa [hr, waiting] using Or.inl this
    · simpa [hr, waiting] using Or.inr hq

theorem foldl_route (h : c.Placed) (ms : List Message) : (ms.foldl Connection.route c).Placed := by
  induction ms generalizing c with
  | nil => exact h
  | cons m ms ih => exact ih (h.route m)

theorem awaited_finish (h : c.Placed) : c.finish.awaited = [] := by
  refine List.eq_nil_iff_forall_not_mem.2 fun n hn => ?_
  obtain ⟨hleft, hw⟩ := mem_awaited_finish_iff.1 hn
  have hon : c.handOn.Placed := Placed.foldl_route (c := { c with inbox := [] }) h c.inbox
  exact hw (hon n hleft)

/-- When a connection ends, a request that is waited for comes to the first response to it that was
read, or fails. -/
theorem outcome?_finish (h : c.Placed) (hn : n ∈ c.awaited) :
    c.finish.outcome? n = some (.error .stopped) ∨
      ∃ r, replyTo? n c.inbox = some r ∧ c.finish.outcome? n = some (.ok r) := by
  by_cases hp : n ∈ c.pending
  · cases hr : replyTo? n c.inbox with
    | none => exact .inl (outcome?_finish_of_no_reply (h n hn) hn fun _ => hr)
    | some r => exact .inr ⟨r, rfl, outcome?_finish_of_reply hp hn hr⟩
  · exact .inl (outcome?_finish_of_no_reply (h n hn) hn fun hp' => absurd hp' hp)

end Placed

/-! ### Responses serve once -/

theorem accepted_fail : (c.resolve n (.error f)).accepted = c.accepted := by
  unfold resolve accepted
  split <;> rfl

theorem accepted_foldl_fail :
    (ns.foldl (fun c n => c.resolve n (.error f)) c).accepted = c.accepted :=
  foldl_resolve_eq accepted fun _ _ => accepted_fail

theorem accepted_route (m : Message) : (c.route m).accepted.Subperm (c.accepted ++ responses [m]) := by
  obtain hr | ⟨r, rfl, -, hr⟩ := c.route_eq m
  · rw [hr]
    exact (List.sublist_append_left _ _).subperm
  · rw [hr]
    unfold resolve
    split
    · exact List.Perm.subperm (List.perm_append_singleton r c.accepted).symm
    · exact (List.sublist_append_left _ _).subperm

theorem accepted_foldl_route (ms : List Message) :
    (ms.foldl route c).accepted.Subperm (c.accepted ++ responses ms) := by
  induction ms generalizing c with
  | nil => exact (List.append_nil _).symm ▸ List.Subperm.refl _
  | cons m ms ih =>
    have hstep : ((c.route m).accepted ++ responses ms).Subperm
        (c.accepted ++ responses [m] ++ responses ms) :=
      (List.subperm_append_right _).2 (accepted_route m)
    have hsplit : responses (m :: ms) = responses [m] ++ responses ms := responses_append [m] ms
    rw [hsplit, ← List.append_assoc]
    exact ih.trans hstep

end

/-! ### All that can come about -/

/-- What holds of every connection that came about, with the messages that were read on it. -/
structure Coherent (c : Connection) (ms : List Message) : Prop where
  tidy : c.Tidy
  placed : c.Placed
  /-- Commands have numbers of their own. -/
  numbered : (c.commands.map Outgoing.number).Nodup
  number_le : ∀ o ∈ c.commands, o.number ≤ c.calls
  /-- Only what was written can be responded to. -/
  sent : ∀ n ∈ c.pending, ∃ o ∈ c.written, o.number = n
  /-- A response that was read waits to be handed on or has served at most once. -/
  supplied : (c.accepted ++ responses c.inbox).Subperm (responses ms)
  closed : c.isOpen = false → c.awaited = []

namespace Coherent

theorem new : Connection.new.Coherent [] := by
  refine ⟨⟨?_, ?_, ?_, List.nodup_nil, ?_⟩, ?_, List.nodup_nil, ?_, ?_, List.Subperm.refl _,
    fun _ => rfl⟩ <;> exact fun _ h => absurd h List.not_mem_nil

section

variable {c c' : Connection} {n : Nat} {o : Outgoing} {i : Incident} {m : Message}
  {ms ms' : List Message} {queue : List Outgoing} (h : c.Coherent ms)

include h

/-- A request that was written is not in the queue. -/
theorem ne_of_queued (hq : o ∈ c.queue) (hw : ∃ o' ∈ c.written, o'.number = n) : n ≠ o.number := by
  obtain ⟨o', hw, rfl⟩ := hw
  have hnodup := h.numbered
  rw [commands, List.map_append, List.nodup_append] at hnodup
  exact hnodup.2.2 _ (List.mem_map.2 ⟨o', List.mem_reverse.2 hw, rfl⟩) _ (List.mem_map.2 ⟨o, hq, rfl⟩)

/-- A request that was written and is waited for is one that a response can serve. -/
theorem mem_pending (hw : ∃ o ∈ c.written, o.number = n) (hn : n ∈ c.awaited) : n ∈ c.pending := by
  obtain hp | hq := List.mem_append.1 (h.placed n hn)
  · exact hp
  · obtain ⟨o, hq, heq⟩ := List.mem_map.1 hq
    exact absurd heq.symm (h.ne_of_queued (List.mem_filter.1 hq).1 hw)

theorem fail (n : Nat) (f : Failure) : (c.resolve n (.error f)).Coherent ms where
  tidy := h.tidy.fail n f
  placed := h.placed.resolve n _
  numbered := by simpa [commands] using h.numbered
  number_le := by simpa [commands] using h.number_le
  sent := by simpa using h.sent
  supplied := by simpa [accepted_fail] using h.supplied
  closed hclosed := by
    rw [resolve_of_not_mem]
    · exact h.closed (by simpa using hclosed)
    · rw [h.closed (by simpa using hclosed)]
      exact List.not_mem_nil

/-- A command is taken out of the queue for which nobody waits. -/
theorem unqueue (hq : c.queue = o :: queue) (hn : o.number ∉ c.awaited) :
    Coherent { c with queue } ms := by
  have hsub : (c.written.reverse ++ queue).Sublist c.commands := by
    rw [commands, hq]
    exact (List.sublist_cons_self o queue).append_left _
  refine ⟨h.tidy.congr (fun _ hn => hn) rfl rfl, fun n hmem => ?_, h.numbered.sublist (hsub.map _),
    fun o ho => h.number_le o (hsub.subset ho), h.sent, h.supplied, h.closed⟩
  have hw := h.placed n hmem
  have hne : n ≠ o.number := fun heq => hn (heq ▸ hmem)
  rw [waiting, hq] at hw
  obtain hp | hw := List.mem_append.1 hw
  · exact List.mem_append_left _ hp
  · obtain ⟨o', ho', rfl⟩ := List.mem_map.1 hw
    obtain ⟨ho', hreq⟩ := List.mem_filter.1 ho'
    rcases List.mem_cons.1 ho' with rfl | ho'
    · exact absurd rfl hne
    · exact List.mem_append_right _ (List.mem_map.2 ⟨o', List.mem_filter.2 ⟨ho', hreq⟩, rfl⟩)

/-- A command of the queue fails. -/
theorem unwritten (hq : c.queue = o :: queue) (f : Failure) :
    (({ c with queue } : Connection).resolve o.number (.error f)).Coherent ms := by
  have hfailed : Coherent { c.resolve o.number (.error f) with queue } ms := by
    refine (h.fail o.number f).unqueue (by rw [resolve_queue, hq]) fun hn => ?_
    exact (mem_awaited_resolve_iff.1 hn).2 rfl
  have hswap : ({ c with queue } : Connection).resolve o.number (.error f) =
      { c.resolve o.number (.error f) with queue } := by
    unfold resolve
    split <;> rfl
  exact hswap ▸ hfailed

/-- The messages that were read are lost. -/
theorem lose : Coherent { c with inbox := [] } ms := by
  refine ⟨h.tidy.congr (fun _ hn => hn) rfl rfl, h.placed, h.numbered, h.number_le, h.sent, ?_,
    h.closed⟩
  show (c.accepted ++ []).Subperm _
  rw [List.append_nil]
  exact (List.sublist_append_left _ _).subperm.trans h.supplied

/-- The first messages are handed on. -/
theorem foldl_route {done rest : List Message} (hinbox : c.inbox = done ++ rest) :
    (done.foldl route { c with inbox := rest }).Coherent ms := by
  generalize hd : ({ c with inbox := rest } : Connection) = d
  have hawaited : d.awaited = c.awaited := hd ▸ rfl
  have htidy : d.Tidy := hd ▸ h.tidy.congr (fun _ hn => hn) rfl rfl
  have hplaced : d.Placed := hd ▸ h.placed
  have hqueue : (done.foldl route d).queue = c.queue :=
    (foldl_route_eq queue fun _ _ => route_queue).trans (hd ▸ rfl)
  have hwritten : (done.foldl route d).written = c.written :=
    (foldl_route_eq written fun _ _ => route_written).trans (hd ▸ rfl)
  have hcalls : (done.foldl route d).calls = c.calls :=
    (foldl_route_eq calls fun _ _ => route_calls).trans (hd ▸ rfl)
  have hrest : (done.foldl route d).inbox = rest :=
    (foldl_route_eq inbox fun _ _ => route_inbox).trans (hd ▸ rfl)
  have hopen : (done.foldl route d).isOpen = c.isOpen :=
    (foldl_route_eq isOpen fun _ _ => route_isOpen).trans (hd ▸ rfl)
  refine ⟨htidy.foldl_route done, hplaced.foldl_route done, ?_, ?_, ?_, ?_, ?_⟩
  · rw [commands, hqueue, hwritten]
    exact h.numbered
  · rw [commands, hqueue, hwritten, hcalls]
    exact h.number_le
  · intro n hn
    have hp : n ∈ d.pending := mem_pending_of_foldl_route hn
    rw [hwritten]
    exact h.sent n (by rwa [← hd] at hp)
  · have hserved : ((done.foldl route d).accepted ++ responses rest).Subperm
        (d.accepted ++ responses done ++ responses rest) :=
      (List.subperm_append_right _).2 (accepted_foldl_route done)
    rw [List.append_assoc, ← responses_append, ← hinbox, ← hd] at hserved
    rw [hrest, ← hd]
    exact hserved.trans h.supplied
  · intro hclosed
    refine List.eq_nil_iff_forall_not_mem.2 fun n hn => ?_
    have := mem_awaited_of_foldl_route hn
    rw [hawaited, h.closed (hopen ▸ hclosed)] at this
    cases this

theorem finish : c.finish.Coherent ms := by
  have hon : c.handOn.Coherent ms := h.foldl_route (List.append_nil _).symm
  refine ⟨h.tidy.finish, ?_, ?_, ?_, ?_, ?_, fun _ => h.placed.awaited_finish⟩
  · intro n hn
    rw [h.placed.awaited_finish] at hn
    cases hn
  · have := h.numbered
    rw [commands, List.map_append] at this
    simpa [commands] using this.of_append_left
  · intro o ho
    simp only [commands, finish_written, finish_queue, List.append_nil] at ho
    rw [finish_calls]
    exact h.number_le o (List.mem_append_left _ ho)
  · intro n hn
    rw [finish_pending] at hn
    cases hn
  · have hserved := hon.supplied
    rw [handOn_inbox] at hserved
    have haccepted : c.finish.accepted = c.handOn.accepted := accepted_foldl_fail
    rw [finish_inbox, haccepted]
    exact hserved

theorem call (m : Command) (isRequest : Bool) : (c.call m isRequest).Coherent ms := by
  have htidy := h.tidy.call m isRequest
  cases hopen : c.isOpen with
  | true =>
    rw [call_of_isOpen hopen] at htidy ⊢
    have hcommands : c.written.reverse ++ (c.queue ++ [⟨c.calls + 1, m, isRequest⟩]) =
        c.commands ++ [⟨c.calls + 1, m, isRequest⟩] := (List.append_assoc ..).symm
    refine ⟨htidy, fun n hn => ?_, ?_, ?_, h.sent, h.supplied, fun hclosed => ?_⟩
    · rw [waiting, List.filter_append, List.map_append, ← List.append_assoc]
      obtain hn | ⟨rfl, rfl⟩ := mem_awaited_of_count hn
      · exact List.mem_append_left _ (h.placed n hn)
      · exact List.mem_append_right _ (List.mem_singleton.2 rfl)
    · show ((c.written.reverse ++ (c.queue ++ _)).map Outgoing.number).Nodup
      rw [hcommands, List.map_append]
      refine h.numbered.append (List.nodup_singleton _) fun n hn hnew => ?_
      obtain ⟨o, ho, rfl⟩ := List.mem_map.1 hn
      have hle : o.number ≤ c.calls := h.number_le o ho
      have heq : o.number = c.calls + 1 := List.mem_singleton.1 hnew
      omega
    · show ∀ o ∈ c.written.reverse ++ (c.queue ++ _), o.number ≤ c.calls + 1
      rw [hcommands]
      intro o ho
      obtain ho | ho := List.mem_append.1 ho
      · exact Nat.le_succ_of_le (h.number_le o ho)
      · obtain rfl := List.mem_singleton.1 ho
        exact Nat.le_refl _
    · exact absurd (hopen.symm.trans hclosed) (by decide)
  | false =>
    have hnone : ∀ n, n ∉ (c.call m isRequest).awaited := by
      intro n hn
      rw [call_of_closed hopen, mem_awaited_resolve_iff] at hn
      obtain hmem | ⟨hnew, -⟩ := mem_awaited_of_count hn.1
      · rw [h.closed hopen] at hmem
        cases hmem
      · exact hn.2 hnew
    rw [call_of_closed hopen] at htidy hnone ⊢
    refine ⟨htidy, fun n hn => absurd hn (hnone n), ?_, ?_, ?_, ?_,
      fun _ => List.eq_nil_iff_forall_not_mem.2 hnone⟩
    · simpa [commands, Connection.count] using h.numbered
    · intro o ho
      simp only [commands, resolve_written, resolve_queue] at ho
      rw [resolve_calls]
      exact Nat.le_succ_of_le (h.number_le o ho)
    · simpa [Connection.count] using h.sent
    · rw [accepted_fail, resolve_inbox]
      exact h.supplied

/-- The first command of the queue is written. -/
theorem wrote (hq : c.queue = o :: queue) : Coherent { c with
    queue
    written := o :: c.written
    pending := if o.isRequest then c.pending ++ [o.number] else c.pending } ms := by
  have hcommands : (o :: c.written).reverse ++ queue = c.commands := by
    rw [commands, hq, List.reverse_cons, List.append_assoc, List.singleton_append]
  refine ⟨h.tidy.congr (fun _ hn => hn) rfl rfl, fun n hn => ?_, ?_, ?_, fun n hn => ?_, h.supplied,
    h.closed⟩
  · have hw := h.placed n hn
    rw [waiting, hq] at hw
    cases hreq : o.isRequest <;> simp [waiting, hreq] at hw ⊢ <;> tauto
  · show (((o :: c.written).reverse ++ queue).map Outgoing.number).Nodup
    rw [hcommands]
    exact h.numbered
  · show ∀ o' ∈ (o :: c.written).reverse ++ queue, o'.number ≤ c.calls
    rw [hcommands]
    exact h.number_le
  · have hold : n ∈ c.pending → ∃ o' ∈ o :: c.written, o'.number = n := fun hp => by
      obtain ⟨o', ho', heq⟩ := h.sent n hp
      exact ⟨o', List.mem_cons_of_mem _ ho', heq⟩
    cases hreq : o.isRequest with
    | false => exact hold (by simpa [hreq] using hn)
    | true =>
      have hn : n ∈ c.pending ∨ n = o.number := by simpa [hreq] using hn
      rcases hn with hp | rfl
      · exact hold hp
      · exact ⟨o, List.mem_cons_self, rfl⟩

/-- What comes from the server makes no difference before it is read. -/
theorem came (input : List UInt8) (inputEnded : Bool) :
    Coherent { c with input, inputEnded } ms :=
  ⟨h.tidy.congr (fun _ hn => hn) rfl rfl, h.placed, h.numbered, h.number_le, h.sent, h.supplied,
    h.closed⟩

/-- A message is read. -/
theorem read (m : Message) : Coherent { c with inbox := c.inbox ++ [m] } (ms ++ [m]) := by
  refine ⟨h.tidy.congr (fun _ hn => hn) rfl rfl, h.placed, h.numbered, h.number_le, h.sent, ?_,
    h.closed⟩
  show (c.accepted ++ responses (c.inbox ++ [m])).Subperm _
  rw [responses_append, responses_append, ← List.append_assoc]
  exact (List.subperm_append_right _).2 h.supplied

/-- The caller of a request is gone. -/
theorem abandon (n : Nat) : Coherent { c with awaited := c.awaited.filter (· != n) } ms := by
  have hsub : c.awaited.filter (· != n) ⊆ c.awaited := fun k hk => (List.mem_filter.1 hk).1
  refine ⟨h.tidy.congr hsub rfl rfl, fun k hk => h.placed k (hsub hk), h.numbered, h.number_le,
    h.sent, h.supplied, fun hclosed => ?_⟩
  show c.awaited.filter (· != n) = []
  rw [h.closed hclosed]
  rfl

/-- Whatever happens, all of this stays so. -/
theorem step (hs : c.Steps i ms' c') : c'.Coherent (ms ++ ms') := by
  have hidle : c.Coherent (ms ++ []) := by rwa [List.append_nil]
  cases hs with
  | called m isRequest => exact hidle.call m isRequest
  | wrote hopen hqueue => exact hidle.wrote hqueue
  | writeFailed hopen hqueue => exact (hidle.unwritten hqueue .brokenPipe).finish
  | received bytes => exact hidle.came _ _
  | inputClosed => exact hidle.came _ _
  | @read m rest hopen hread => exact (h.read m).came rest c.inputEnded
  | @routed m inbox hopen hinbox =>
    have hsplit : c.inbox = [m] ++ inbox := hinbox
    exact hidle.foldl_route hsplit
  | ended hopen => exact hidle.finish
  | brokeDown hopen => exact hidle.lose.finish
  | @timedOut n timeout command hn => exact hidle.fail n _
  | abandoned n => exact hidle.abandon n
  | dropped hopen hqueue => exact hidle.finish

end

end Coherent

/-! ### A single incident -/

section

variable {c c' : Connection} {n : Nat} {o : Outcome} {i : Incident} {r : Response}
  {ms ms' : List Message} (h : c.Coherent ms)

include h

/-- What a request came to it stays. -/
theorem Coherent.final (hs : c.Steps i ms' c') (ho : c.outcome? n = some o) :
    c'.outcome? n = some o := by
  have hn : n ∉ c.awaited := h.tidy.not_mem_awaited ho
  cases hs with
  | called m isRequest =>
    have hne : n ≠ c.calls + 1 := by
      have := h.tidy.le_calls ho
      omega
    cases hopen : c.isOpen with
    | true =>
      rw [call_of_isOpen hopen]
      exact ho
    | false =>
      rw [call_of_closed hopen, outcome?_resolve_of_ne hne]
      exact ho
  | @writeFailed o queue hopen hqueue =>
    have hleft : n ∉ (({ c with queue } : Connection).resolve o.number (.error .brokenPipe)).awaited :=
      fun hmem => hn (mem_awaited_resolve_iff.1 hmem).1
    rw [outcome?_finish_of_not_mem hleft, outcome?_resolve_of_not_mem (by exact hn)]
    exact ho
  | @routed m inbox hopen hinbox =>
    rw [outcome?_route_of_not_mem (by exact hn)]
    exact ho
  | ended hopen => exact (outcome?_finish_of_not_mem hn).trans ho
  | brokeDown hopen => exact (outcome?_finish_of_not_mem (by exact hn)).trans ho
  | timedOut command hk => exact (outcome?_resolve_of_not_mem hn).trans ho
  | dropped hopen hqueue => exact (outcome?_finish_of_not_mem hn).trans ho
  | _ => exact ho

/-- When the connection ends, a request that is waited for comes to the first response to it that was
read, or fails. -/
theorem Coherent.outcome?_of_end (hs : c.Steps i ms' c') (hopen : c.isOpen = true)
    (hclosed : c'.isOpen = false) (hn : n ∈ c.awaited) :
    (∃ f, c'.outcome? n = some (.error f)) ∨
      ∃ r, replyTo? n c.inbox = some r ∧ c'.outcome? n = some (.ok r) := by
  cases hs with
  | @writeFailed o queue hopen hqueue =>
    by_cases hk : n = o.number
    · subst hk
      have hleft : o.number ∉
          (({ c with queue } : Connection).resolve o.number (.error .brokenPipe)).awaited :=
        fun hmem => (mem_awaited_resolve_iff.1 hmem).2 rfl
      rw [outcome?_finish_of_not_mem hleft]
      exact .inl ⟨_, outcome?_resolve_self (by exact hn) _⟩
    · have hplaced := (h.unwritten hqueue .brokenPipe).placed
      obtain hf | ⟨r, hr, hf⟩ := hplaced.outcome?_finish (mem_awaited_resolve_iff.2 ⟨hn, hk⟩)
      · exact .inl ⟨_, hf⟩
      · exact .inr ⟨r, by simpa using hr, hf⟩
  | ended => exact (h.placed.outcome?_finish hn).imp_left fun hf => ⟨_, hf⟩
  | brokeDown =>
    obtain hf | ⟨r, hr, -⟩ := h.lose.placed.outcome?_finish (by exact hn)
    · exact .inl ⟨_, hf⟩
    · cases hr
  | dropped => exact (h.placed.outcome?_finish hn).imp_left fun hf => ⟨_, hf⟩
  | _ => simp_all

/-- A request that is waited for is waited for still or comes to something, unless its caller goes. -/
theorem Coherent.kept (hs : c.Steps i ms' c') (hn : n ∈ c.awaited) (hi : i ≠ .abandoned n) :
    n ∈ c'.awaited ∨ ∃ o, c'.outcome? n = some o := by
  have hend : c.isOpen = true → c'.isOpen = false → ∃ o, c'.outcome? n = some o :=
    fun hopen hclosed => (h.outcome?_of_end hs hopen hclosed hn).elim (fun ⟨_, hf⟩ => ⟨_, hf⟩)
      fun ⟨_, _, hr⟩ => ⟨_, hr⟩
  cases hs with
  | called m isRequest =>
    cases hopen : c.isOpen with
    | true =>
      rw [call_of_isOpen hopen]
      exact .inl (mem_awaited_count hn)
    | false =>
      rw [h.closed hopen] at hn
      cases hn
  | writeFailed hopen hqueue => exact .inr (hend hopen finish_isOpen)
  | @routed m inbox hopen hinbox => exact kept_of_route (by exact hn) m
  | ended hopen => exact .inr (hend hopen finish_isOpen)
  | brokeDown hopen => exact .inr (hend hopen finish_isOpen)
  | timedOut command hk => exact (kept_of_resolve hn _ _).imp_right fun ho => ⟨_, ho⟩
  | abandoned k => exact .inl (List.mem_filter.2 ⟨hn, bne_iff_ne.2 fun heq => hi (heq ▸ rfl)⟩)
  | dropped hopen hqueue => exact .inr (hend hopen finish_isOpen)
  | _ => exact .inl hn

/-- A request has come to a response, or the response was read and is handed on to it next. -/
def Due (c : Connection) (n : Nat) (r : Response) : Prop :=
  c.outcome? n = some (.ok r) ∨ n ∈ c.pending ∧ n ∈ c.awaited ∧ replyTo? n c.inbox = some r

theorem Coherent.due (hs : c.Steps i ms' c') (hd : c.Due n r) (hi : ¬i.GivesUp n)
    (hb : i ≠ .brokeDown) : c'.Due n r := by
  obtain ho | ⟨hp, hn, hr⟩ := hd
  · exact .inl (h.final hs ho)
  cases hs with
  | called m isRequest =>
    cases hopen : c.isOpen with
    | true =>
      rw [call_of_isOpen hopen]
      exact .inr ⟨hp, mem_awaited_count hn, hr⟩
    | false =>
      rw [h.closed hopen] at hn
      cases hn
  | @wrote o queue hopen hqueue =>
    refine .inr ⟨?_, hn, hr⟩
    show n ∈ if o.isRequest then c.pending ++ [o.number] else c.pending
    split_ifs
    · exact List.mem_append_left _ hp
    · exact hp
  | @writeFailed o queue hopen hqueue =>
    have hne : n ≠ o.number := h.ne_of_queued (hqueue ▸ List.mem_cons_self) (h.sent n hp)
    refine .inl (outcome?_finish_of_reply ?_ (mem_awaited_resolve_iff.2 ⟨hn, hne⟩) ?_)
    · rw [resolve_pending]
      exact hp
    · rw [resolve_inbox]
      exact hr
  | read hopen hread => exact .inr ⟨hp, hn, replyTo?_append hr _⟩
  | @routed m inbox hopen hinbox =>
    rw [hinbox] at hr
    by_cases hm : m.Answers n
    · obtain ⟨r', rfl, rfl⟩ := hm
      obtain rfl := Option.some.inj ((replyTo?_cons_response rfl inbox).symm.trans hr)
      exact .inl (outcome?_route (by exact hp) (by exact hn))
    · rw [replyTo?_cons_of_not_answers hm] at hr
      obtain ⟨hn', hp'⟩ := stays_of_route (c := { c with inbox }) hn fun _ => hm
      refine .inr ⟨hp' hp, hn', ?_⟩
      rw [route_inbox]
      exact hr
  | ended hopen => exact .inl (outcome?_finish_of_reply hp hn hr)
  | brokeDown hopen => exact absurd rfl hb
  | timedOut command hk =>
    refine .inr ⟨?_, mem_awaited_resolve_iff.2 ⟨hn, fun heq => hi heq.symm⟩, ?_⟩
    · rw [resolve_pending]
      exact hp
    · rw [resolve_inbox]
      exact hr
  | abandoned k =>
    exact .inr ⟨hp, List.mem_filter.2 ⟨hn, bne_iff_ne.2 fun heq => hi heq.symm⟩, hr⟩
  | dropped hopen hqueue => exact .inl (outcome?_finish_of_reply hp hn hr)
  | _ => exact .inr ⟨hp, hn, hr⟩

theorem Coherent.lost_of_brokeDown (hs : c.Steps .brokeDown ms' c') (hd : c.Due n r) :
    c'.outcome? n = some (.ok r) ∨ c'.outcome? n = some (.error .stopped) := by
  obtain ho | ⟨hp, hn, hr⟩ := hd
  · exact .inl (h.final hs ho)
  · cases hs with
    | brokeDown hopen =>
      exact .inr (outcome?_finish_of_no_reply (List.mem_append_left _ hp) hn fun _ => rfl)

end

/-! ### Runs -/

namespace Run

variable {c c' : Connection} {is js : List Incident} {ms ms' : List Message} {n : Nat} {o : Outcome}
  {r : Response}

theorem coherent (hc : c.Coherent ms) (h : Run c js ms' c') : c'.Coherent (ms ++ ms') := by
  induction h with
  | start =>
    rw [List.append_nil]
    exact hc
  | step _ hs ih =>
    rw [← List.append_assoc]
    exact ih.step (steps_of_step? hs)

theorem final (hc : c.Coherent ms) (h : Run c js ms' c') (ho : c.outcome? n = some o) :
    c'.outcome? n = some o := by
  induction h with
  | start => exact ho
  | step hrun hs ih => exact (hrun.coherent hc).final (steps_of_step? hs) ih

theorem kept (hc : c.Coherent ms) (h : Run c js ms' c') (hn : n ∈ c.awaited)
    (hjs : .abandoned n ∉ js) : n ∈ c'.awaited ∨ ∃ o, c'.outcome? n = some o := by
  induction h with
  | start => exact .inl hn
  | @step is _ c₁ c₂ i hrun hs ih =>
    have hcoherent := hrun.coherent hc
    have hs := steps_of_step? hs
    obtain hn | ⟨o, ho⟩ := ih fun hi => hjs (List.mem_append_left _ hi)
    · refine hcoherent.kept hs hn ?_
      rintro rfl
      exact hjs (List.mem_append_right _ List.mem_cons_self)
    · exact .inr ⟨o, hcoherent.final hs ho⟩

/-- A response that was read is handed on to its request, or the connection has broken down. -/
theorem due (hc : c.Coherent ms) (h : Run c js ms' c') (hd : c.Due n r)
    (hjs : ∀ i ∈ js, ¬i.GivesUp n) :
    c'.Due n r ∨ .brokeDown ∈ js ∧ c'.outcome? n = some (.error .stopped) := by
  induction h with
  | start => exact .inl hd
  | @step is _ c₁ c₂ i hrun hs ih =>
    have hcoherent := hrun.coherent hc
    have hs := steps_of_step? hs
    obtain hd | ⟨hb, ho⟩ := ih fun i hi => hjs i (List.mem_append_left _ hi)
    · by_cases hb : i = .brokeDown
      · subst hb
        obtain ho | ho := hcoherent.lost_of_brokeDown hs hd
        · exact .inl (.inl ho)
        · exact .inr ⟨List.mem_append_right _ List.mem_cons_self, ho⟩
      · exact .inl (hcoherent.due hs hd (hjs i (List.mem_append_right _ List.mem_cons_self)) hb)
    · exact .inr ⟨List.mem_append_left _ hb, hcoherent.final hs ho⟩

end Run

/-- How the requests of a connection and the responses among the messages that were read on it belong
together. -/
structure Correlated (c : Connection) (ms : List Message) : Prop where
  /-- A request comes to a response with its own number. -/
  own : ∀ n r, c.outcome? n = some (.ok r) → r.request = n
  /-- No response that was read serves two requests. -/
  shared : c.accepted.Subperm (responses ms)
  /-- No request comes to two things. -/
  once : (c.outcomes.map Prod.fst).Nodup
  final : ∀ js ms' c', Run c js ms' c' → ∀ n o, c.outcome? n = some o → c'.outcome? n = some o
  /-- A request that times out has come to that, so that a response that comes later does nothing. -/
  timedOut : ∀ n timeout c', c.step? (.timedOut n timeout) = some c' →
    ∃ command, c'.outcome? n = some (.error (.noResponse command timeout))
  late : ∀ r o, c.outcome? r.request = some o →
    (c.route (.response r)).outcomes = c.outcomes ∧ (c.route (.response r)).awaited = c.awaited
  /-- A response that was read for a request that was written and is waited for is what the request
  comes to, unless the connection breaks down. -/
  delivered : ∀ n r, (∃ o ∈ c.written, o.number = n) → n ∈ c.awaited →
    replyTo? n c.inbox = some r → ∀ js ms' c', Run c js ms' c' → (∀ i ∈ js, ¬i.GivesUp n) →
      c'.isOpen = false → c'.outcome? n = some (.ok r) ∨
        .brokeDown ∈ js ∧ c'.outcome? n = some (.error .stopped)
  /-- When the connection ends, all other requests fail. -/
  failed : ∀ i c', c.step? i = some c' → c.isOpen = true → c'.isOpen = false → ∀ n ∈ c.awaited,
    (∃ f, c'.outcome? n = some (.error f)) ∨
      ∃ r, replyTo? n c.inbox = some r ∧ c'.outcome? n = some (.ok r)
  /-- Once the connection has ended, no request stays without an outcome. -/
  resolved : ∀ js ms' c', Run c js ms' c' → c'.isOpen = false → ∀ n ∈ c.awaited,
    .abandoned n ∉ js → ∃ o, c'.outcome? n = some o
  given : ∀ m, c.isOpen = true → c.calls + 1 ∈ (c.call m true).awaited
  refused : ∀ m, c.isOpen = false → (c.call m true).outcome? (c.calls + 1) = some (.error .stopped)

/-- Requests and responses belong together on every connection, whatever happens to it. -/
theorem requests_correlated {is : List Incident} {ms : List Message} {c : Connection}
    (h : Run new is ms c) : c.Correlated ms := by
  have hc : c.Coherent ms := h.coherent .new
  refine ⟨fun n r ho => hc.tidy.own _ (mem_of_outcome? ho) r rfl, ?_, hc.tidy.once,
    fun js ms' c' hrun n o ho => hrun.final hc ho, ?_,
    fun r o ho => route_of_not_awaited (hc.tidy.not_mem_awaited ho), ?_,
    fun i c' hs hopen hclosed n hn => hc.outcome?_of_end (steps_of_step? hs) hopen hclosed hn,
    ?_, ?_, ?_⟩
  · exact (List.sublist_append_left _ _).subperm.trans hc.supplied
  · intro n timeout c' hs
    cases steps_of_step? hs with
    | timedOut command hn => exact ⟨command, outcome?_resolve_self hn _⟩
  · intro n r hw hn hr js ms' c' hrun hjs hclosed
    have hdue : c.Due n r := .inr ⟨hc.mem_pending hw hn, hn, hr⟩
    obtain (ho | ⟨-, hn', -⟩) | hlost := hrun.due hc hdue hjs
    · exact .inl ho
    · rw [(hrun.coherent hc).closed hclosed] at hn'
      cases hn'
    · exact .inr hlost
  · intro js ms' c' hrun hclosed n hn hjs
    obtain hn' | ho := hrun.kept hc hn hjs
    · rw [(hrun.coherent hc).closed hclosed] at hn'
      cases hn'
    · exact ho
  · intro m hopen
    rw [call_of_isOpen hopen]
    exact List.mem_cons_self
  · intro m hclosed
    rw [call_of_closed hclosed]
    exact outcome?_resolve_self List.mem_cons_self _

/-! ### A response that comes and one that is lost -/

/-- What the server writes to respond to a request. -/
def responseTo (n : Nat) : List UInt8 :=
  frame (.object [("type", .string "response"), ("request_seq", .integer n),
    ("command", .string "quickinfo"), ("success", .boolean false)])

/-- A question about a document. -/
def question : Command := .quickInfo "/a.ts" ⟨1, 1⟩

/-- Two questions are asked.  The second one gets two responses and the first one gets one, which is
read when the server closes its end. -/
def exchange : List Incident :=
  [.called question true, .called question true, .wrote, .wrote,
    .received (responseTo 2 ++ responseTo 2 ++ responseTo 1), .read, .routed, .inputClosed, .read,
    .read]

/-- A request that was written is waited for, and a response to it was read. -/
def awaitsReply (c : Connection) (n : Nat) : Bool :=
  (c.written.any fun o => o.number == n) && c.awaited.contains n && (replyTo? n c.inbox).isSome

theorem awaitsReply_iff {c : Connection} {n : Nat} : c.awaitsReply n = true ↔
    (∃ o ∈ c.written, o.number = n) ∧ n ∈ c.awaited ∧ ∃ r, replyTo? n c.inbox = some r := by
  simp only [awaitsReply, Bool.and_eq_true, List.any_eq_true, beq_iff_eq, List.contains_iff_mem,
    Option.isSome_iff_exists, and_assoc]

/-- The first question is answered, though its response comes last. -/
theorem first_question_answered : ∃ c ms c' ms', Run new exchange ms c ∧ c.Correlated ms ∧
    Run c [.ended] ms' c' ∧ c'.isOpen = false ∧ ∃ r, r.request = 1 ∧ c'.outcome? 1 = some (.ok r) := by
  have hrun : ((new.run? exchange).bind fun c => (c.step? .ended).map fun c' =>
      c.awaitsReply 1 && !c'.isOpen) = some true := by decide +kernel
  obtain ⟨c, hexchange, hrun⟩ := Option.bind_eq_some_iff.1 hrun
  obtain ⟨c', hended, hgood⟩ := Option.map_eq_some_iff.1 hrun
  rw [Bool.and_eq_true, awaitsReply_iff, Bool.not_eq_true'] at hgood
  obtain ⟨⟨hw, hn, r, hr⟩, hclosed⟩ := hgood
  obtain ⟨ms, hexchange⟩ := exists_run_of_run? hexchange
  have hended : Run c [.ended] _ c' := .step .start hended
  have hcorrelated := requests_correlated hexchange
  refine ⟨c, ms, c', _, hexchange, hcorrelated, hended, hclosed, r, request_of_replyTo? hr, ?_⟩
  have hpatient : ∀ i ∈ [Incident.ended], ¬i.GivesUp 1 := by
    intro i hi
    rw [List.mem_singleton.1 hi]
    exact id
  obtain ho | ⟨hb, -⟩ := hcorrelated.delivered 1 r hw hn hr _ _ _ hended hpatient hclosed
  · exact ho
  · cases List.mem_singleton.1 hb

/-- A question is asked, and what comes is a response to it and a header that announces a body which
is too long. -/
def overwhelming : List Incident :=
  [.called question true, .wrote,
    .received (responseTo 1 ++ bytesOf "Content-Length: 18446744073709551615\r\n\r\n".toList), .read]

/-- The response was read when the connection breaks down, and the request fails. -/
theorem response_lost : ∃ c ms c' ms', Run new overwhelming ms c ∧ Run c [.brokeDown] ms' c' ∧
    (∃ o ∈ c.written, o.number = 1) ∧ 1 ∈ c.awaited ∧ (∃ r, replyTo? 1 c.inbox = some r) ∧
      c'.isOpen = false ∧ c'.outcome? 1 = some (.error .stopped) := by
  have hrun : ((new.run? overwhelming).bind fun c => (c.step? .brokeDown).map fun _ =>
      c.awaitsReply 1) = some true := by decide +kernel
  obtain ⟨c, hoverwhelming, hrun⟩ := Option.bind_eq_some_iff.1 hrun
  obtain ⟨c', hbroke, hgood⟩ := Option.map_eq_some_iff.1 hrun
  obtain ⟨hw, hn, hr⟩ := awaitsReply_iff.1 hgood
  obtain ⟨ms, hoverwhelming⟩ := exists_run_of_run? hoverwhelming
  have hplaced := (hoverwhelming.coherent .new).lose.placed
  refine ⟨c, ms, c', _, hoverwhelming, .step .start hbroke, hw, hn, hr, ?_⟩
  cases steps_of_step? hbroke with
  | brokeDown hopen =>
    exact ⟨finish_isOpen, outcome?_finish_of_no_reply (hplaced 1 hn) hn fun _ => rfl⟩

end Connection

end AnySpans.Server
