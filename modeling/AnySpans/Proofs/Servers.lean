import AnySpans.Proofs.Exchanges
import AnySpans.Proofs.Frames
import AnySpans.Proofs.Responses

/-!
# Servers that answer in time

A server is honest (`Peer.Honest`) if what it answers depends only on the question and on the files
that were open when it was asked, and if each answer comes in time.  An exchange with such a server
goes on as it should whatever is asked (`Exchange.Serving`): no request is given up, and each comes
to the response that tells what the server knows (`Exchange.Expects`).
-/

namespace AnySpans.Server

open AnySpans.Documents AnySpans.Text

/-! ### Bytes that carry messages -/

/-- Bytes carry some messages, and what is left after them is too short for another one. -/
inductive Carries : List UInt8 → List Message → List UInt8 → Prop
  | short {bytes : List UInt8} {e : Option FrameError} : readMessage bytes = .short e →
    Carries bytes [] bytes
  | message {bytes rest left : List UInt8} {m : Message} {ms : List Message} :
    readMessage bytes = .message m rest → Carries rest ms left → Carries bytes (m :: ms) left

namespace Carries

variable {bytes more left left' : List UInt8} {ms ms' : List Message}

/-- It does not matter where the bytes are cut. -/
theorem append (h : Carries bytes ms left) (h' : Carries (left ++ more) ms' left') :
    Carries (bytes ++ more) (ms ++ ms') left' := by
  induction h with
  | short => exact h'
  | message hm _ ih => exact .message (readMessage_append hm more) (ih h')

theorem length_le (h : Carries bytes ms left) : ms.length ≤ bytes.length := by
  induction h with
  | short => exact Nat.zero_le _
  | message hm _ ih =>
    have := length_of_readMessage hm
    rw [List.length_cons]
    omega

theorem short_left (h : Carries bytes ms left) : ∃ e, readMessage left = .short e := by
  induction h with
  | short hs => exact ⟨_, hs⟩
  | message _ _ ih => exact ih

end Carries

theorem Client.Idles.coherent {c c' : Client} (h : c.Idles c')
    (hc : ∃ read, c.connection.Coherent read) : ∃ read, c'.connection.Coherent read := by
  induction h with
  | refl => exact hc
  | happened _ _ hs ih =>
    obtain ⟨read, hread⟩ := ih
    exact ⟨_, hread.step (Connection.steps_of_step? hs)⟩

namespace Connection

variable {c : Connection} {ms : List Message} {left : List UInt8}

theorem readAll_of_carries {fuel : Nat} (hopen : c.isOpen = true) (h : Carries c.input ms left)
    (hfuel : ms.length ≤ fuel) :
    c.readAll fuel = { c with inbox := c.inbox ++ ms, input := left } := by
  generalize hinput : c.input = bytes at h
  induction h generalizing c fuel with
  | short hs =>
    subst hinput
    rw [List.append_nil]
    cases fuel with
    | zero => rfl
    | succ fuel => simp only [readAll, step?, hs]
  | @message _ rest _ m ms hm _ ih =>
    subst hinput
    obtain ⟨fuel, rfl⟩ := Nat.exists_eq_add_of_le' (Nat.le_trans (Nat.le_add_left 1 _) hfuel)
    have hstep : c.step? .read = some { c with inbox := c.inbox ++ [m], input := rest } := by
      simp only [step?, hm, hopen, if_true]
    have hlength : ms.length ≤ fuel := Nat.le_of_succ_le_succ hfuel
    have hrest := ih (c := { c with inbox := c.inbox ++ [m], input := rest }) hopen hlength rfl
    rw [readAll, hstep]
    dsimp only at hrest ⊢
    rw [hrest, List.append_assoc]
    rfl

theorem route_with_inbox (c : Connection) (m : Message) (inbox : List Message) :
    ({ c with inbox } : Connection).route m = { c.route m with inbox } := by
  cases m with
  | event e => rfl
  | response r =>
    by_cases hp : r.request ∈ c.pending
    · rw [route_of_mem hp, route_of_mem (by exact hp)]
      by_cases ha : r.request ∈ c.awaited
      · rw [resolve_of_mem (by exact ha), resolve_of_mem (by exact ha)]
      · rw [resolve_of_not_mem (by exact ha), resolve_of_not_mem (by exact ha)]
    · rw [route_of_not_mem hp, route_of_not_mem (by exact hp)]

@[simp] theorem route_input (c : Connection) (m : Message) : (c.route m).input = c.input := by
  obtain h | ⟨r, -, -, h⟩ := c.route_eq m
  · rw [h]
  · rw [h, resolve]
    split <;> rfl

@[simp] theorem route_inputEnded (c : Connection) (m : Message) :
    (c.route m).inputEnded = c.inputEnded := by
  obtain h | ⟨r, -, -, h⟩ := c.route_eq m
  · rw [h]
  · rw [h, resolve]
    split <;> rfl

theorem foldl_routed (hopen : c.isOpen = true) (hinbox : c.inbox = []) (ms : List Message) :
    ms.foldl (fun c _ => c.step .routed) { c with inbox := ms } = ms.foldl route c := by
  induction ms generalizing c with
  | nil => exact congrArg (fun inbox => { c with inbox }) hinbox.symm
  | cons m ms ih =>
    have hstep : ({ c with inbox := m :: ms } : Connection).step .routed =
        { c.route m with inbox := ms } := by
      rw [← route_with_inbox, step, step?]
      simp only [hopen, if_true]
      rfl
    rw [List.foldl_cons, List.foldl_cons, hstep]
    exact ih (route_isOpen.trans hopen) (route_inbox.trans hinbox)

/-- What comes is read and handed on, as far as it is whole messages. -/
theorem receive_of_carries (hopen : c.isOpen = true) (hended : c.inputEnded = false)
    (hinbox : c.inbox = []) (h : Carries c.input ms left) :
    c.receive = ms.foldl route { c with input := left } := by
  obtain ⟨e, hshort⟩ := h.short_left
  have hread := readAll_of_carries hopen h h.length_le
  rw [hinbox, List.nil_append] at hread
  have hending : ({ c with inbox := ms, input := left } : Connection).ending? = none := by
    rw [ending?, hshort]
    simp only [hended, Bool.false_eq_true, if_false]
  have hexhausted : ({ c with inbox := ms, input := left } : Connection).isExhausted = false := by
    rw [isExhausted, hending]
    rfl
  have hoverwhelmed : ({ c with inbox := ms, input := left } : Connection).isOverwhelmed = false := by
    rw [isOverwhelmed, hending]
    rfl
  have hsteps : ({ c with inbox := ms, input := left } : Connection).step .ended =
      { c with inbox := ms, input := left } := by
    rw [step, step?, hexhausted, if_neg (by simp)]
    rfl
  have hsteps' : ({ c with inbox := ms, input := left } : Connection).step .brokeDown =
      { c with inbox := ms, input := left } := by
    rw [step, step?, hoverwhelmed, if_neg (by simp)]
    rfl
  rw [receive, hread, hsteps, hsteps']
  exact foldl_routed (c := { c with input := left }) hopen hinbox ms

end Connection

/-! ### What servers owe -/

/-- What a server knows of files, by the text and the kind of script that they are open with: what is
shown at a location, and where errors are, if it can tell that. -/
structure Knowledge where
  info : String × Option String → Location → Option String
  errors : String × Option String → Option (List Range)

/-- A response to a question tells what is known of the file that is asked about. -/
structure Knowledge.Tells (K : Knowledge) (m : Command) (t : Files) (r : Response) : Prop where
  info : ∀ file at' f, m = .quickInfo file at' → t file = some f →
    Check.Answers.answerOf (.ok r) = K.info f at'
  errors : ∀ file f, m = .remarks file → t file = some f →
    (readErrors (.ok r)).toOption = K.errors f

/-- A request that has no response yet. -/
structure Debt where
  number : Nat
  command : Command
  /-- The files that were open when it was heard. -/
  files : Files
  since : Nat

/-- What a server owes for a command that it hears. -/
def Outgoing.debts (o : Outgoing) (t : Files) (now : Nat) : List Debt :=
  if o.isRequest then [⟨o.number, o.command, t, now⟩] else []

/-- The commands that a client gives while it asks about documents. -/
inductive Outgoing.Said : Outgoing → Prop
  | opened (n : Nat) (file text : String) (kind : Option String) :
    Said ⟨n, .openFile file text kind, false⟩
  | closed (n : Nat) (file : String) : Said ⟨n, .closeFile file, false⟩
  | asked {n : Nat} {m : Command} {file : String} : m.AsksAbout file → Said ⟨n, m, true⟩

/-- What is still owed after some messages. -/
def unsettled (owed : List Debt) (ms : List Message) : List Debt :=
  owed.filter fun q => (replyTo? q.number ms).isNone

/-- Each response tells what is known of a file that it is owed for. -/
def Knowledge.TellsAll (K : Knowledge) (owed : List Debt) (ms : List Message) : Prop :=
  ∀ r ∈ responses ms, ∃ q ∈ owed, q.number = r.request ∧ K.Tells q.command q.files r

/-- What a server does is to send bytes that carry, after the bytes it had sent before, messages it
owes. -/
structure Says (K : Knowledge) (owed : List Debt) (left : List UInt8) (deeds : List Deed)
    (ms : List Message) (left' : List UInt8) : Prop where
  sends : ∃ chunks : List (List UInt8), deeds = chunks.map Deed.send ∧
    Carries (left ++ chunks.flatten) ms left'
  tells : K.TellsAll owed ms

/-- A server answers from what it knows, and each request within a time, as long as there are no more
than a number of commands.  `inv` tells in which states it may be at a time, by the files that are
open, what it owes, and the bytes it has sent of a message that is not complete. -/
structure Peer.Honest {π : Type} (p : Peer π) (K : Knowledge) (patience last : Nat)
    (inv : π → Nat → Files → List Debt → List UInt8 → Prop) : Prop where
  hear {x : π} {now : Nat} {t : Files} {owed : List Debt} {left : List UInt8} {o : Outgoing} :
    inv x now t owed left → o.Said → o.number ≤ last → (∀ q ∈ owed, q.number ≠ o.number) →
    ∃ ms left', Says K (owed ++ o.debts t now) left (p.hear x now (o.command.line o.number)).2 ms
        left' ∧
      inv (p.hear x now (o.command.line o.number)).1 now (t.after o.command)
        (unsettled (owed ++ o.debts t now) ms) left'
  act {x : π} {now : Nat} {t : Files} {owed : List Debt} {left : List UInt8} :
    inv x now t owed left → ∃ ms left', Says K owed left (p.act x now).2 ms left' ∧
      inv (p.act x now).1 now t (unsettled owed ms) left' ∧
        ∀ time, p.due (p.act x now).1 = some time → now < time
  /-- Time passes up to when something is due. -/
  wait {x : π} {now time : Nat} {t : Files} {owed : List Debt} {left : List UInt8} :
    inv x now t owed left → now ≤ time → (∀ due, p.due x = some due → time ≤ due) →
    inv x time t owed left
  /-- What is owed comes in time. -/
  prompt {x : π} {now : Nat} {t : Files} {owed : List Debt} {left : List UInt8} {q : Debt} :
    inv x now t owed left → q ∈ owed → ∃ time, p.due x = some time ∧ time < q.since + patience

section

variable {owed owed' : List Debt} {ms ms' : List Message} {q : Debt} {K : Knowledge}

theorem mem_unsettled : q ∈ unsettled owed ms ↔ q ∈ owed ∧ replyTo? q.number ms = none := by
  rw [unsettled, List.mem_filter, Option.isNone_iff_eq_none]

theorem unsettled_nil (owed : List Debt) : unsettled owed [] = owed :=
  List.filter_eq_self.2 fun _ _ => rfl

theorem replyTo?_append_eq (n : Nat) (ms ms' : List Message) :
    replyTo? n (ms ++ ms') = (replyTo? n ms).or (replyTo? n ms') := by
  rw [replyTo?, responses_append, List.find?_append]
  rfl

/-- What is owed newly is not settled by what was said before. -/
theorem unsettled_append (hnew : ∀ q ∈ owed', replyTo? q.number ms = none) :
    unsettled (unsettled owed ms ++ owed') ms' = unsettled (owed ++ owed') (ms ++ ms') := by
  rw [unsettled, unsettled, unsettled, List.filter_append, List.filter_append, List.filter_filter]
  congr 1
  · refine List.filter_congr fun q _ => ?_
    rw [replyTo?_append_eq, Option.isNone_or, Bool.and_comm]
  · refine List.filter_congr fun q hq => ?_
    rw [replyTo?_append_eq, hnew q hq, Option.none_or]

theorem mem_responses_of_replyTo? {n : Nat} {r : Response} (h : replyTo? n ms = some r) :
    r ∈ responses ms := List.mem_of_find?_eq_some h

namespace Knowledge.TellsAll

theorem append (h : K.TellsAll owed ms) (h' : K.TellsAll owed ms') :
    K.TellsAll owed (ms ++ ms') := by
  intro r hr
  rw [responses_append] at hr
  exact (List.mem_append.1 hr).elim (h r) (h' r)

theorem mono (h : K.TellsAll owed ms) (hsub : owed ⊆ owed') : K.TellsAll owed' ms := by
  intro r hr
  obtain ⟨q, hq, hrest⟩ := h r hr
  exact ⟨q, hsub hq, hrest⟩

/-- Only what is owed is responded to. -/
theorem replyTo?_eq_none (h : K.TellsAll owed ms) {n : Nat} (hn : ∀ q ∈ owed, q.number ≠ n) :
    replyTo? n ms = none := by
  cases hr : replyTo? n ms with
  | none => rfl
  | some r =>
    obtain ⟨q, hq, heq, -⟩ := h r (mem_responses_of_replyTo? hr)
    exact absurd (heq.trans (request_of_replyTo? hr)) (hn q hq)

end Knowledge.TellsAll

end

/-! ### Exchanges with an honest server -/

/-- What was said on a connection. -/
structure Talk where
  /-- The commands that the server has read, in order. -/
  heard : List Outgoing
  /-- The commands that it has not read yet. -/
  unheard : List Outgoing
  /-- What was owed since the client took messages for the last time. -/
  owed : List Debt
  /-- The messages that came since then. -/
  came : List Message

/-- The files that are open for a server. -/
def Talk.files (g : Talk) : Files := filesOf (g.heard.map Outgoing.command)

namespace Exchange

/-- The connection to an honest server is as it should be, and nothing is overdue. -/
structure Sound {π : Type} (K : Knowledge) (patience last : Nat) (x : Exchange π) (now : Nat)
    (g : Talk) : Prop where
  isOpen : x.connection.isOpen = true
  inputEnded : x.connection.inputEnded = false
  inbox : x.connection.inbox = []
  isHeard : x.isHeard = true
  coherent : ∃ read, x.connection.Coherent read
  calls : x.connection.calls ≤ last
  commands : x.connection.commands = g.heard ++ g.unheard
  sent : g.heard <+: x.connection.written.reverse
  said : ∀ o ∈ g.unheard, o.Said
  tells : K.TellsAll g.owed g.came
  known : ∀ q ∈ g.owed, ∃ o ∈ g.heard, o.number = q.number
  distinct : (g.owed.map Debt.number).Nodup
  timely : ∀ q ∈ g.owed, now < q.since + patience
  /-- Who waits for a response waits longer than the server takes. -/
  waits : ∀ n ∈ x.connection.awaited,
    (∃ q ∈ g.owed, q.number = n ∧ ∀ t, (n, t) ∈ x.deadlines → q.since + x.timeout ≤ t) ∨
      ∃ o ∈ g.unheard, o.number = n ∧ o.isRequest = true ∧
        ∀ t, (n, t) ∈ x.deadlines → now + x.timeout ≤ t
  dated : ∀ d ∈ x.deadlines, d.1 ≤ x.connection.calls

/-- The server is in a state that it may be in. -/
structure Serving {π : Type} (K : Knowledge) (patience last : Nat)
    (inv : π → Nat → Files → List Debt → List UInt8 → Prop) (x : Exchange π) (now : Nat) (g : Talk) :
    Prop extends Sound K patience last x now g where
  peer : ∃ left, inv x.peer now g.files (unsettled g.owed g.came) left ∧
    Carries x.connection.input g.came left

/-- A request that was given by a time comes, or has come, to a response of which `P` holds. -/
inductive Expects {π : Type} (K : Knowledge) (x : Exchange π) (now : Nat) (g : Talk)
    (n since : Nat) (P : Response → Prop) : Prop
  | given {before after : List Outgoing} {o : Outgoing} : g.unheard = before ++ o :: after →
    o.number = n → o.isRequest = true → n ∈ x.connection.awaited → now ≤ since →
    (∀ r, K.Tells o.command (filesOf ((g.heard ++ before).map Outgoing.command)) r → P r) →
    Expects K x now g n since P
  | owed {q : Debt} : q ∈ g.owed → q.number = n → n ∈ x.connection.awaited → q.since ≤ since →
    (∀ r, K.Tells q.command q.files r → P r) → Expects K x now g n since P
  | told {r : Response} : x.connection.outcome? n = some (.ok r) → P r →
    Expects K x now g n since P

/-- What is expected of a request stays so. -/
def Leads {π : Type} (K : Knowledge) (x : Exchange π) (now : Nat) (g : Talk) (x' : Exchange π)
    (g' : Talk) : Prop :=
  ∀ n since P, Expects K x now g n since P → Expects K x' now g' n since P

variable {π : Type} {p : Peer π} {K : Knowledge} {patience last : Nat}
  {inv : π → Nat → Files → List Debt → List UInt8 → Prop} {x x' x'' : Exchange π} {now : Nat}
  {g g' g'' : Talk} {n since : Nat} {P : Response → Prop} {o : Outgoing} {us : List Outgoing}

theorem Leads.trans (h : Leads K x now g x' g') (h' : Leads K x' now g' x'' g'') :
    Leads K x now g x'' g'' := fun n since P he => h' n since P (h n since P he)

theorem Leads.of_eq (hawaited : x'.connection.awaited = x.connection.awaited)
    (houtcomes : x'.connection.outcomes = x.connection.outcomes) (hheard : g'.heard = g.heard)
    (hunheard : g'.unheard = g.unheard) (howed : g'.owed = g.owed) : Leads K x now g x' g' := by
  intro n since P h
  cases h with
  | given hsplit hn hrequest hwaits hsince htells =>
    exact .given (hunheard.trans hsplit) hn hrequest (hawaited ▸ hwaits) hsince (hheard ▸ htells)
  | owed hq hn hwaits hsince htells =>
    exact .owed (howed ▸ hq) hn (hawaited ▸ hwaits) hsince htells
  | told ho hP => exact .told (by rwa [Connection.outcome?, houtcomes]) hP

/-! Bytes come. -/

/-- The exchange after bytes have come. -/
def gets (x : Exchange π) (bytes : List UInt8) : Exchange π :=
  { x with client := { x.client with
      connection := { x.connection with input := x.connection.input ++ bytes } } }

theorem gets_append (x : Exchange π) (bytes more : List UInt8) :
    (x.gets bytes).gets more = x.gets (bytes ++ more) :=
  congrArg (fun input => { x with client := { x.client with
    connection := { x.connection with input } } }) (List.append_assoc ..)

theorem foldl_doDeed_send (x : Exchange π) (hended : x.connection.inputEnded = false)
    (chunks : List (List UInt8)) :
    (chunks.map Deed.send).foldl doDeed x = x.gets chunks.flatten := by
  induction chunks generalizing x with
  | nil => exact congrArg (fun input => { x with client := { x.client with
      connection := { x.connection with input } } }) (List.append_nil x.connection.input).symm
  | cons bytes chunks ih =>
    have hreceived : x.connection.step (.received bytes) =
        { x.connection with input := x.connection.input ++ bytes } := by
      rw [Connection.step, Connection.step?, if_neg (by simp [hended])]
      rfl
    have hstep : x.doDeed (.send bytes) = x.gets bytes := by
      rw [doDeed, happen, hreceived]
      rfl
    rw [List.map_cons, List.foldl_cons, hstep, ih (x.gets bytes) hended, gets_append]
    rfl

/-- What a request comes to is what is expected. -/
theorem Expects.exists_of_outcome? (h : Expects K x now g n since P)
    (hx : x.Sound K patience last now g) {o : Outcome} (ho : x.connection.outcome? n = some o) :
    ∃ r, o = .ok r ∧ P r := by
  obtain ⟨read, hcoherent⟩ := hx.coherent
  cases h with
  | given _ _ _ hwaits => exact absurd hwaits (hcoherent.tidy.not_mem_awaited ho)
  | owed _ _ hwaits => exact absurd hwaits (hcoherent.tidy.not_mem_awaited ho)
  | told ho' hP => exact ⟨_, Option.some.inj (ho.symm.trans ho'), hP⟩

/-- A request that has come to nothing yet is not overdue. -/
theorem Expects.lt_of_outcome?_eq_none (h : Expects K x now g n since P)
    (hx : x.Sound K patience last now g) (hpos : 0 < patience)
    (ho : x.connection.outcome? n = none) : now < since + patience := by
  cases h with
  | given _ _ _ _ hsince => omega
  | owed hq _ _ hsince =>
    have := hx.timely _ hq
    omega
  | told ho' => cases ho.symm.trans ho'

namespace Sound

/-- What does not concern the connection may change, and some deadlines may be taken away. -/
theorem frame (h : x.Sound K patience last now g) {input : List UInt8}
    (hconnection : x'.connection = { x.connection with input }) (hheard : x'.isHeard = x.isHeard)
    (htimeout : x'.timeout = x.timeout) (hdeadlines : x'.deadlines ⊆ x.deadlines) :
    x'.Sound K patience last now g := by
  obtain ⟨read, hcoherent⟩ := h.coherent
  constructor <;> try rw [hconnection]
  · exact h.isOpen
  · exact h.inputEnded
  · exact h.inbox
  · exact hheard.trans h.isHeard
  · exact ⟨read, hcoherent.came input _⟩
  · exact h.calls
  · exact h.commands
  · exact h.sent
  · exact h.said
  · exact h.tells
  · exact h.known
  · exact h.distinct
  · exact h.timely
  · rw [htimeout]
    intro n hn
    obtain ⟨q, hq, heq, hlate⟩ | ⟨o, ho, heq, hrequest, hlate⟩ := h.waits n hn
    · exact .inl ⟨q, hq, heq, fun t ht => hlate t (hdeadlines ht)⟩
    · exact .inr ⟨o, ho, heq, hrequest, fun t ht => hlate t (hdeadlines ht)⟩
  · exact fun d hd => h.dated d (hdeadlines hd)

theorem not_late (h : x.Sound K patience last now g) (hpos : 0 < patience)
    (hpatience : patience ≤ x.timeout) {d : Nat × Nat} (hd : d ∈ x.deadlines)
    (hn : d.1 ∈ x.connection.awaited) : now < d.2 := by
  obtain ⟨q, hq, -, hlate⟩ | ⟨o, -, -, -, hlate⟩ := h.waits d.1 hn
  · have := h.timely q hq
    have := hlate d.2 hd
    omega
  · have := hlate d.2 hd
    omega

/-- Only what was heard is owed for. -/
theorem number_ne (h : x.Sound K patience last now g) (ho : o ∈ g.unheard) :
    ∀ q ∈ g.owed, q.number ≠ o.number := by
  intro q hq
  obtain ⟨read, hcoherent⟩ := h.coherent
  obtain ⟨o', ho', heq⟩ := h.known q hq
  have hnodup := hcoherent.numbered
  rw [h.commands, List.map_append, List.nodup_append] at hnodup
  exact heq ▸ hnodup.2.2 _ (List.mem_map_of_mem ho') _ (List.mem_map_of_mem ho)

theorem number_le (h : x.Sound K patience last now g) (ho : o ∈ g.unheard) : o.number ≤ last := by
  obtain ⟨read, hcoherent⟩ := h.coherent
  exact Nat.le_trans (hcoherent.number_le o (h.commands ▸ List.mem_append_right _ ho)) h.calls

/-- Messages come that the server owes. -/
theorem say (h : x.Sound K patience last now g) {ms : List Message} (hms : K.TellsAll g.owed ms) :
    x.Sound K patience last now { g with came := g.came ++ ms } :=
  ⟨h.isOpen, h.inputEnded, h.inbox, h.isHeard, h.coherent, h.calls, h.commands, h.sent, h.said,
    h.tells.append hms, h.known, h.distinct, h.timely, h.waits, h.dated⟩

theorem mem_debts {t : Files} {q : Debt} (hq : q ∈ o.debts t now) :
    o.isRequest = true ∧ q = ⟨o.number, o.command, t, now⟩ := by
  unfold Outgoing.debts at hq
  split at hq
  · exact ⟨‹_›, List.mem_singleton.1 hq⟩
  · cases hq

/-- The server reads the next command. -/
theorem hear (h : x.Sound K patience last now g) (hpos : 0 < patience)
    (hunheard : g.unheard = o :: us) (hsent : g.heard ++ [o] <+: x.connection.written.reverse) :
    x.Sound K patience last now
      ⟨g.heard ++ [o], us, g.owed ++ o.debts g.files now, g.came⟩ where
  isOpen := h.isOpen
  inputEnded := h.inputEnded
  inbox := h.inbox
  isHeard := h.isHeard
  coherent := h.coherent
  calls := h.calls
  commands := by rw [h.commands, hunheard, List.append_assoc]; rfl
  sent := hsent
  said o' ho' := h.said o' (hunheard ▸ List.mem_cons_of_mem o ho')
  tells := h.tells.mono fun q hq => List.mem_append_left _ hq
  known q hq := by
    obtain hq | hq := List.mem_append.1 hq
    · obtain ⟨o', ho', heq⟩ := h.known q hq
      exact ⟨o', List.mem_append_left _ ho', heq⟩
    · obtain ⟨-, rfl⟩ := mem_debts hq
      exact ⟨o, List.mem_append_right _ (List.mem_singleton_self o), rfl⟩
  distinct := by
    rw [List.map_append, List.nodup_append]
    refine ⟨h.distinct, ?_, fun n hn n' hn' => ?_⟩
    · unfold Outgoing.debts
      split
      · exact List.nodup_singleton _
      · exact List.nodup_nil
    · obtain ⟨q, hq, rfl⟩ := List.mem_map.1 hn
      obtain ⟨q', hq', rfl⟩ := List.mem_map.1 hn'
      obtain ⟨-, rfl⟩ := mem_debts hq'
      exact h.number_ne (hunheard ▸ List.mem_cons_self) q hq
  timely q hq := by
    obtain hq | hq := List.mem_append.1 hq
    · exact h.timely q hq
    · obtain ⟨-, rfl⟩ := mem_debts hq
      exact Nat.lt_add_of_pos_right hpos
  waits n hn := by
    obtain ⟨q, hq, heq, hlate⟩ | ⟨o', ho', heq, hrequest, hlate⟩ := h.waits n hn
    · exact .inl ⟨q, List.mem_append_left _ hq, heq, hlate⟩
    · obtain rfl | ho' := List.mem_cons.1 (hunheard ▸ ho')
      · refine .inl ⟨⟨o'.number, o'.command, g.files, now⟩, List.mem_append_right _ ?_, heq, hlate⟩
        rw [Outgoing.debts, if_pos hrequest]
        exact List.mem_singleton_self _
      · exact .inr ⟨o', ho', heq, hrequest, hlate⟩
  dated := h.dated

end Sound

/-- What is expected of a command stays so when it is read. -/
theorem leads_hear (hunheard : g.unheard = o :: us) (came : List Message) :
    Leads K x now g x ⟨g.heard ++ [o], us, g.owed ++ o.debts g.files now, came⟩ := by
  intro n since P h
  cases h with
  | @given before after o' hsplit hn hrequest hwaits hsince htells =>
    cases before with
    | nil =>
      obtain ⟨rfl, rfl⟩ := List.cons.inj (hunheard.symm.trans hsplit)
      rw [List.append_nil] at htells
      refine .owed (q := ⟨o.number, o.command, g.files, now⟩) (List.mem_append_right _ ?_) hn hwaits
        hsince htells
      rw [Outgoing.debts, if_pos hrequest]
      exact List.mem_singleton_self _
    | cons o₁ before =>
      obtain ⟨rfl, rfl⟩ := List.cons.inj (hunheard.symm.trans hsplit)
      refine .given rfl hn hrequest hwaits hsince fun r hr => htells r ?_
      rwa [List.append_assoc] at hr
  | owed hq hn hwaits hsince htells =>
    exact .owed (List.mem_append_left _ hq) hn hwaits hsince htells
  | told ho hP => exact .told ho hP

/-! ### What goes on by itself -/

/-- No request is given up. -/
theorem expire_eq (h : ∀ d ∈ x.deadlines, d.1 ∈ x.connection.awaited → now < d.2) :
    x.expire now =
      { x with deadlines := x.deadlines.filter fun d => x.connection.awaited.contains d.1 } := by
  have hlive : ∀ d ∈ x.deadlines.filter (fun d => x.connection.awaited.contains d.1),
      ¬d.2 ≤ now := by
    intro d hd
    obtain ⟨hd, hn⟩ := List.mem_filter.1 hd
    exact Nat.not_le.2 (h d hd (List.contains_iff_mem.1 hn))
  have hlate : (x.deadlines.filter fun d => x.connection.awaited.contains d.1).filter
      (fun d => decide (d.2 ≤ now)) = [] :=
    List.filter_eq_nil_iff.2 fun d hd => by simpa using hlive d hd
  have hrest : (x.deadlines.filter fun d => x.connection.awaited.contains d.1).filter
      (not ∘ fun d => decide (d.2 ≤ now)) =
        x.deadlines.filter fun d => x.connection.awaited.contains d.1 :=
    List.filter_eq_self.2 fun d hd => by simpa using hlive d hd
  rw [expire]
  dsimp only
  rw [List.partition_eq_filter_filter, hlate, hrest]
  rfl

/-- The exchange after the server has done something. -/
theorem Serving.says (h : x.Sound K patience last now g) {deeds : List Deed} {ms : List Message}
    {left left' : List UInt8} {owed : List Debt} (hsub : owed ⊆ g.owed)
    (hcarries : Carries x.connection.input g.came left) (hspoken : Says K owed left deeds ms left')
    (hpeer : inv x.peer now g.files (unsettled g.owed (g.came ++ ms)) left') :
    (deeds.foldl doDeed x).Serving K patience last inv now { g with came := g.came ++ ms } ∧
      ∃ bytes, deeds.foldl doDeed x = x.gets bytes := by
  obtain ⟨⟨chunks, rfl, hchunks⟩, htells⟩ := hspoken
  rw [foldl_doDeed_send x h.inputEnded]
  refine ⟨⟨(h.say (htells.mono hsub)).frame rfl rfl rfl (List.Subset.refl _), left', hpeer, ?_⟩, _, rfl⟩
  exact hcarries.append hchunks

/-- The server does by itself what it has to do by a time. -/
theorem Serving.act (h : x.Serving K patience last inv now g) (hp : p.Honest K patience last inv) :
    ∃ ms, (x.act p now).Serving K patience last inv now { g with came := g.came ++ ms } ∧
      (∃ peer bytes, x.act p now = ({ x with peer } : Exchange π).gets bytes) ∧
        ∀ time, p.due (x.act p now).peer = some time → now < time := by
  obtain ⟨left, hinv, hcarries⟩ := h.peer
  obtain ⟨ms, left', hspoken, hinv', hdue⟩ := hp.act hinv
  have hsound : Sound K patience last { x with peer := (p.act x.peer now).1 } now g :=
    h.toSound.frame rfl rfl rfl (List.Subset.refl _)
  have hsettled : unsettled (unsettled g.owed g.came) ms = unsettled g.owed (g.came ++ ms) := by
    have hnil : unsettled (unsettled g.owed g.came ++ []) ms = unsettled (g.owed ++ []) (g.came ++ ms) :=
      unsettled_append nofun
    rwa [List.append_nil, List.append_nil] at hnil
  obtain ⟨hserving, bytes, heq⟩ := Serving.says hsound (fun _ hq => (mem_unsettled.1 hq).1) hcarries hspoken
    (hsettled ▸ hinv')
  have hact : x.act p now = ({ x with peer := (p.act x.peer now).1 } : Exchange π).gets bytes := heq
  refine ⟨ms, hserving, ⟨_, bytes, hact⟩, ?_⟩
  rw [hact]
  exact hdue

/-- The commands of the queue are written. -/
theorem write_eq {os : List Outgoing} (hheard : x.isHeard = true) (hopen : x.connection.isOpen = true)
    (hqueue : x.connection.queue = os) : ∃ pending, write os x =
      { x with
        unread := x.unread ++ os.map fun o => o.command.line o.number
        client := { x.client with connection := { x.connection with
          queue := []
          written := os.reverse ++ x.connection.written
          pending } } } := by
  induction os generalizing x with
  | nil =>
    refine ⟨x.connection.pending, ?_⟩
    rw [write, List.map_nil, List.append_nil]
    exact congrArg (fun queue => { x with client := { x.client with
      connection := { x.connection with queue } } }) hqueue
  | cons o os ih =>
    have hwrote : x.connection.step .wrote = { x.connection with
        queue := os
        written := o :: x.connection.written
        pending := if o.isRequest then x.connection.pending ++ [o.number] else x.connection.pending }
        := by
      rw [Connection.step, Connection.step?, hqueue]
      simp only [hopen, if_true]
      rfl
    obtain ⟨pending, hrest⟩ := ih (x := { x.happen .wrote with
      unread := x.unread ++ [o.command.line o.number] }) hheard
      (by rw [happen, hwrote]; exact hopen) (by rw [happen, hwrote]; rfl)
    refine ⟨pending, ?_⟩
    rw [write, if_pos hheard, hrest, happen, hwrote, List.append_assoc, List.reverse_cons,
      List.append_assoc]
    rfl

/-- All commands lie before the server. -/
theorem Serving.write (h : x.Serving K patience last inv now g) (hread : x.unread = [])
    (hsent : x.connection.written.reverse = g.heard) : ∃ x', write x.connection.queue x = x' ∧
      x'.Serving K patience last inv now g ∧ Leads K x now g x' g ∧
        x'.unread = (g.unheard.map fun o => o.command.line o.number) ∧
          x'.connection.written.reverse = g.heard ++ g.unheard ∧ x'.connection.queue = [] ∧
            x'.timeout = x.timeout ∧ x'.peer = x.peer := by
  have hqueue : x.connection.queue = g.unheard := by
    have hcommands := h.commands
    rw [Connection.commands, hsent] at hcommands
    exact List.append_cancel_left hcommands
  have hcoherent := (idles_write x.connection.queue x).coherent h.coherent
  obtain ⟨pending, heq⟩ := write_eq h.isHeard h.isOpen rfl
  have hwritten : (x.connection.queue.reverse ++ x.connection.written).reverse =
      g.heard ++ g.unheard := by
    rw [List.reverse_append, List.reverse_reverse, hsent, hqueue]
  rw [heq] at hcoherent
  refine ⟨_, heq, ⟨?_, h.peer⟩, .of_eq rfl rfl rfl rfl rfl, ?_, hwritten, rfl, rfl, rfl⟩
  · refine ⟨h.isOpen, h.inputEnded, h.inbox, h.isHeard, hcoherent, h.calls, ?_, ?_, h.said, h.tells,
      h.known, h.distinct, h.timely, h.waits, h.dated⟩
    · exact (List.append_nil _).trans hwritten
    · exact hwritten ▸ List.prefix_append _ _
  · show x.unread ++ _ = _
    rw [hread, hqueue]
    rfl

/-- The server reads the command that lies first before it. -/
theorem Serving.hearNext (h : x.Serving K patience last inv now g)
    (hp : p.Honest K patience last inv) (hpos : 0 < patience) (hunheard : g.unheard = o :: us)
    (hwritten : g.heard ++ [o] <+: x.connection.written.reverse) :
    let r := p.hear x.peer now (o.command.line o.number)
    let x₁ : Exchange π := { x with peer := r.1, heard := o.command.line o.number :: x.heard }
    ∃ g' bytes, r.2.foldl doDeed x₁ = x₁.gets bytes ∧
      (x₁.gets bytes).Serving K patience last inv now g' ∧ g'.heard = g.heard ++ [o] ∧
        g'.unheard = us ∧ Leads K x now g (x₁.gets bytes) g' := by
  have hmem : o ∈ g.unheard := hunheard ▸ List.mem_cons_self
  obtain ⟨left, hinv, hcarries⟩ := h.peer
  have hfresh := h.toSound.number_ne hmem
  obtain ⟨ms, left', hspoken, hinv'⟩ := hp.hear hinv (h.said o hmem) (h.toSound.number_le hmem)
    fun q hq => hfresh q (mem_unsettled.1 hq).1
  intro r x₁
  have hsound : x₁.Sound K patience last now
      ⟨g.heard ++ [o], us, g.owed ++ o.debts g.files now, g.came⟩ :=
    (h.toSound.hear hpos hunheard hwritten).frame rfl rfl rfl (List.Subset.refl _)
  have hsettled : unsettled (unsettled g.owed g.came ++ o.debts g.files now) ms =
      unsettled (g.owed ++ o.debts g.files now) (g.came ++ ms) := by
    refine unsettled_append fun q hq => ?_
    obtain ⟨-, rfl⟩ := Sound.mem_debts hq
    exact h.tells.replyTo?_eq_none hfresh
  have hfiles : g.files.after o.command =
      filesOf ((g.heard ++ [o]).map Outgoing.command) := by
    rw [List.map_append]
    exact (filesOf_concat _ _).symm
  rw [hfiles] at hinv'
  have hsub : unsettled g.owed g.came ++ o.debts g.files now ⊆ g.owed ++ o.debts g.files now :=
    List.append_subset.2 ⟨fun q hq => List.mem_append_left _ (mem_unsettled.1 hq).1,
      List.subset_append_right _ _⟩
  rw [hsettled] at hinv'
  obtain ⟨hserving, bytes, heq⟩ := Serving.says hsound hsub hcarries hspoken hinv'
  rw [heq] at hserving
  exact ⟨_, bytes, heq, hserving, rfl, rfl,
    (leads_hear hunheard g.came).trans (.of_eq rfl rfl rfl rfl rfl)⟩

/-- The server reads all that lies before it. -/
theorem Serving.hear (hp : p.Honest K patience last inv) (hpos : 0 < patience)
    (us : List Outgoing) {x : Exchange π} {g : Talk} (h : x.Serving K patience last inv now g)
    (hunheard : g.unheard = us) (hwritten : x.connection.written.reverse = g.heard ++ us) :
    ∃ x' g', hear p now (us.map fun o => o.command.line o.number) x = x' ∧
      x'.Serving K patience last inv now g' ∧ g'.unheard = [] ∧ Leads K x now g x' g' ∧
        x'.connection.written.reverse = g'.heard ∧ x'.connection.queue = x.connection.queue ∧
          x'.unread = [] ∧ x'.timeout = x.timeout ∧ (us = [] → x'.peer = x.peer) := by
  induction us generalizing x g with
  | nil =>
    refine ⟨_, g, rfl, ⟨h.toSound.frame rfl rfl rfl (List.Subset.refl _), h.peer⟩, hunheard,
      .of_eq rfl rfl rfl rfl rfl, ?_, rfl, rfl, rfl, fun _ => rfl⟩
    exact hwritten.trans (List.append_nil _)
  | cons o us ih =>
    have hnext : g.heard ++ [o] <+: x.connection.written.reverse := by
      rw [hwritten]
      exact ⟨us, List.append_assoc _ _ _⟩
    obtain ⟨g₁, bytes, heq, hserving, hheard₁, hunheard₁, hleads⟩ :=
      h.hearNext hp hpos hunheard hnext
    obtain ⟨x', g', hrest, hserving', hunheard', hleads', hwritten', hqueue', hunread', htimeout', -⟩ :=
      ih hserving hunheard₁ (by rw [hheard₁, List.append_assoc]; exact hwritten)
    refine ⟨x', g', ?_, hserving', hunheard', hleads.trans hleads', hwritten', hqueue', hunread',
      htimeout', nofun⟩
    rw [List.map_cons, Exchange.hear, if_pos h.isHeard]
    exact (congrArg (Exchange.hear p now _) heq).trans hrest

/-- A request that is still waited for has no response among the messages that were taken. -/
theorem Sound.replyTo?_eq_none (h : x.Sound K patience last now g) {q : Debt} (hq : q ∈ g.owed)
    {left : List UInt8} (hn : q.number ∈
      (g.came.foldl Connection.route { x.connection with input := left }).awaited) :
    replyTo? q.number g.came = none := by
  have hawaited : q.number ∈ x.connection.awaited :=
    Connection.mem_awaited_of_foldl_route (c := { x.connection with input := left }) hn
  obtain ⟨read, hcoherent⟩ := h.coherent
  obtain ⟨o, ho, heq⟩ := h.known q hq
  have hpending := hcoherent.mem_pending ⟨o, List.mem_reverse.1 (h.sent.subset ho), heq⟩ hawaited
  by_contra hsome
  obtain ⟨r, hr⟩ := Option.ne_none_iff_exists'.1 hsome
  exact (Connection.outcome?_foldl_route (c := { x.connection with input := left }) hpending
    hawaited hr).1 hn

/-- What is owed comes to the response that settles it. -/
theorem Sound.outcome?_of_owed (h : x.Sound K patience last now g) {q : Debt} (hq : q ∈ g.owed)
    (hawaited : q.number ∈ x.connection.awaited) (left : List UInt8) {r : Response}
    (hr : replyTo? q.number g.came = some r) : K.Tells q.command q.files r ∧
      (g.came.foldl Connection.route { x.connection with input := left }).outcome? q.number =
        some (.ok r) := by
  obtain ⟨read, hcoherent⟩ := h.coherent
  obtain ⟨o, ho, heq⟩ := h.known q hq
  have hpending := hcoherent.mem_pending ⟨o, List.mem_reverse.1 (h.sent.subset ho), heq⟩ hawaited
  obtain ⟨q', hq', heq', htells⟩ := h.tells r (mem_responses_of_replyTo? hr)
  obtain rfl := List.inj_on_of_nodup_map h.distinct hq' hq (heq'.trans (request_of_replyTo? hr))
  exact ⟨htells, (Connection.outcome?_foldl_route (c := { x.connection with input := left }) hpending
    hawaited hr).2⟩

/-- The client takes what has come. -/
theorem Serving.receive (h : x.Serving K patience last inv now g) (hunheard : g.unheard = []) :
    ∃ x', { x with client := { x.client with connection := x.connection.receive } } = x' ∧
      x'.Serving K patience last inv now ⟨g.heard, [], unsettled g.owed g.came, []⟩ ∧
        Leads K x now g x' ⟨g.heard, [], unsettled g.owed g.came, []⟩ ∧
          x'.connection.written = x.connection.written ∧ x'.connection.queue = x.connection.queue ∧
            x'.unread = x.unread ∧ x'.timeout = x.timeout ∧ x'.peer = x.peer := by
  obtain ⟨left, hinv, hcarries⟩ := h.peer
  have hcoherent := (idles_receive x.client).coherent h.coherent
  have heq := Connection.receive_of_carries h.isOpen h.inputEnded h.inbox hcarries
  rw [show x.client.connection.receive = _ from heq] at hcoherent
  have hkept : ∀ {α : Type} (f : Connection → α), (∀ c m, f (Connection.route c m) = f c) →
      f (g.came.foldl Connection.route { x.connection with input := left }) =
        f { x.connection with input := left } := fun f hf => Connection.foldl_route_eq f hf
  have hwritten := hkept Connection.written fun _ _ => Connection.route_written
  have hqueue := hkept Connection.queue fun _ _ => Connection.route_queue
  have hcalls := hkept Connection.calls fun _ _ => Connection.route_calls
  rw [heq]
  refine ⟨_, rfl, ⟨⟨?_, ?_, ?_, h.isHeard, hcoherent, ?_, ?_, ?_, nofun, nofun, ?_, ?_, ?_, ?_, ?_⟩,
    left, ?_, ?_⟩, ?_, hwritten, hqueue, rfl, rfl, rfl⟩
  · exact (hkept Connection.isOpen fun _ _ => Connection.route_isOpen).trans h.isOpen
  · exact (hkept Connection.inputEnded Connection.route_inputEnded).trans h.inputEnded
  · exact (hkept Connection.inbox fun _ _ => Connection.route_inbox).trans h.inbox
  · exact Nat.le_trans (Nat.le_of_eq hcalls) h.calls
  · show _ ++ _ = _
    rw [List.append_nil]
    refine Eq.trans ?_ (h.commands.trans (by rw [hunheard, List.append_nil]))
    exact congrArg₂ (· ++ ·) (congrArg List.reverse hwritten) hqueue
  · exact (congrArg List.reverse hwritten).symm ▸ h.sent
  · exact fun q hq => h.known q (mem_unsettled.1 hq).1
  · exact h.distinct.sublist (List.filter_sublist.map _)
  · exact fun q hq => h.timely q (mem_unsettled.1 hq).1
  · intro n hn
    have hawaited := Connection.mem_awaited_of_foldl_route (c := { x.connection with input := left }) hn
    obtain ⟨q, hq, rfl, hlate⟩ | ⟨o, ho, -⟩ := h.waits n hawaited
    · exact .inl ⟨q, mem_unsettled.2 ⟨hq, h.toSound.replyTo?_eq_none hq hn⟩, rfl, hlate⟩
    · rw [hunheard] at ho
      cases ho
  · exact fun d hd => Nat.le_trans (h.dated d hd) (Nat.le_of_eq hcalls.symm)
  · rw [unsettled_nil]
    exact hinv
  · obtain ⟨e, hshort⟩ := hcarries.short_left
    exact (hkept Connection.input Connection.route_input).symm ▸ .short hshort
  · intro n since P hexpects
    cases hexpects with
    | given hsplit =>
      rw [hunheard] at hsplit
      cases List.append_eq_nil_iff.1 hsplit.symm |>.2
    | @owed q hq hn hwaits hsince htells =>
      subst hn
      cases hr : replyTo? q.number g.came with
      | some r =>
        obtain ⟨htells', ho⟩ := h.toSound.outcome?_of_owed hq hwaits left hr
        exact .told ho (htells r htells')
      | none =>
        refine .owed (mem_unsettled.2 ⟨hq, hr⟩) rfl ?_ hsince htells
        exact (Connection.stays_of_foldl_route (c := { x.connection with input := left }) hwaits
          fun _ => hr).1
    | @told r ho hP =>
      obtain ⟨read, hread⟩ := h.coherent
      refine .told (r := r) ?_ hP
      exact (Connection.outcome?_foldl_route_of_not_mem (c := { x.connection with input := left })
        (hread.tidy.not_mem_awaited ho) g.came).trans ho

/-- Nothing is on its way between the client and the server but commands that are not written yet. -/
structure Resting (K : Knowledge) (patience last : Nat)
    (inv : π → Nat → Files → List Debt → List UInt8 → Prop) (x : Exchange π) (now : Nat) (g : Talk) :
    Prop extends Serving K patience last inv x now g where
  taken : g.came = []
  read : x.unread = []
  written : x.connection.written.reverse = g.heard

namespace Resting

theorem queue (h : x.Resting K patience last inv now g) : x.connection.queue = g.unheard := by
  have hcommands := h.commands
  rw [Connection.commands, h.written] at hcommands
  exact List.append_cancel_left hcommands

/-- All that can be done at a time is done as it should be. -/
theorem settle (h : x.Resting K patience last inv now g) (hp : p.Honest K patience last inv)
    (hpos : 0 < patience) (hpatience : patience ≤ x.timeout) :
    ∃ g', (x.settle p now).Resting K patience last inv now g' ∧ g'.unheard = [] ∧
      Leads K x now g (x.settle p now) g' ∧ (x.settle p now).timeout = x.timeout ∧
        (g.unheard = [] → ∀ time, p.due (x.settle p now).peer = some time → now < time) := by
  have hexpire := expire_eq fun d => h.toSound.not_late hpos hpatience
  have h₁ : (x.expire now).Serving K patience last inv now g := by
    rw [hexpire]
    exact ⟨h.toSound.frame rfl rfl rfl fun _ hd => (List.mem_filter.1 hd).1, h.peer⟩
  obtain ⟨ms, h₂, ⟨peer, bytes, hact⟩, hdue⟩ := h₁.act hp
  have hread : ((x.expire now).act p now).unread = [] := by
    rw [hact, hexpire]
    exact h.read
  have hwritten : ((x.expire now).act p now).connection.written.reverse = g.heard := by
    rw [hact, hexpire]
    exact h.written
  have hleads : Leads K x now g ((x.expire now).act p now) { g with came := g.came ++ ms } := by
    rw [hact, hexpire]
    exact .of_eq rfl rfl rfl rfl rfl
  have htimeout : ((x.expire now).act p now).timeout = x.timeout := by
    rw [hact, hexpire]
    rfl
  obtain ⟨x₃, hwrite, h₃, hleads₃, hunread₃, hwritten₃, hqueue₃, htimeout₃, hpeer₃⟩ :=
    h₂.write hread hwritten
  obtain ⟨x₄, g₄, hhear, h₄, hunheard₄, hleads₄, hwritten₄, hqueue₄, hunread₄, htimeout₄, hpeer₄⟩ :=
    h₃.hear hp hpos g.unheard rfl hwritten₃
  obtain ⟨x₅, hreceive, h₅, hleads₅, hwritten₅, hqueue₅, hunread₅, htimeout₅, hpeer₅⟩ :=
    h₄.receive hunheard₄
  have hsettle : x.settle p now = x₅ := by
    rw [Exchange.settle]
    dsimp only
    rw [hwrite, hunread₃, hhear, hreceive]
  rw [hsettle]
  refine ⟨_, ⟨h₅, rfl, hunread₅.trans hunread₄, hwritten₅ ▸ hwritten₄⟩, rfl,
    ((hleads.trans hleads₃).trans hleads₄).trans hleads₅,
    htimeout₅.trans (htimeout₄.trans (htimeout₃.trans htimeout)), fun hnone time hd => ?_⟩
  rw [hpeer₅, hpeer₄ hnone, hpeer₃] at hd
  exact hdue time hd

/-- Time passes up to when something is due. -/
theorem wait (h : x.Resting K patience last inv now g) (hp : p.Honest K patience last inv)
    (hunheard : g.unheard = []) {time : Nat} (hle : now ≤ time)
    (hdue : ∀ due, p.due x.peer = some due → time ≤ due) :
    x.Resting K patience last inv time g ∧
      ∀ n since P, Expects K x now g n since P → Expects K x time g n since P := by
  obtain ⟨left, hinv, hcarries⟩ := h.peer
  have htimely : ∀ q ∈ g.owed, time < q.since + patience := by
    intro q hq
    have howed : q ∈ unsettled g.owed g.came := by rwa [h.taken, unsettled_nil]
    obtain ⟨due, hd, hlt⟩ := hp.prompt hinv howed
    exact Nat.lt_of_le_of_lt (hdue due hd) hlt
  refine ⟨⟨⟨⟨h.isOpen, h.inputEnded, h.inbox, h.isHeard, h.coherent, h.calls, h.commands, h.sent, h.said,
    h.tells, h.known, h.distinct, htimely, fun n hn => ?_, h.dated⟩, left, hp.wait hinv hle hdue,
    hcarries⟩, h.taken, h.read, h.written⟩, fun n since P hexpects => ?_⟩
  · refine (h.waits n hn).imp_right ?_
    rintro ⟨o, ho, -⟩
    rw [hunheard] at ho
    cases ho
  · cases hexpects with
    | given hsplit =>
      rw [hunheard] at hsplit
      cases (List.append_eq_nil_iff.1 hsplit.symm).2
    | owed hq hn hwaits hsince htells => exact .owed hq hn hwaits hsince htells
    | told ho hP => exact .told ho hP

/-- A command is given, and its response is waited for if it is a request. -/
theorem call (h : x.Resting K patience last inv now g) {m : Command} {isRequest : Bool}
    (hsaid : Outgoing.Said ⟨x.connection.calls + 1, m, isRequest⟩)
    (hcalls : x.connection.calls + 1 ≤ last) (texts : Table String) {deadlines : List (Nat × Nat)}
    (hdeadlines : ∀ d ∈ deadlines, d = (x.connection.calls + 1, now + x.timeout)) :
    let x' : Exchange π := { x with
      client := ⟨x.connection.call m isRequest, texts⟩
      deadlines := x.deadlines ++ deadlines }
    let g' : Talk := { g with unheard := g.unheard ++ [⟨x.connection.calls + 1, m, isRequest⟩] }
    x'.Resting K patience last inv now g' ∧ Leads K x now g x' g' ∧
      ∀ P : Response → Prop, isRequest = true → (∀ r, K.Tells m (filesOf x.client.stream) r → P r) →
        Expects K x' now g' (x.connection.calls + 1) now P := by
  intro x' g'
  have hcall : x'.connection = { x.connection.count isRequest with
      queue := x.connection.queue ++ [⟨x.connection.calls + 1, m, isRequest⟩] } :=
    Connection.call_of_isOpen h.isOpen
  have hstream : x.client.stream = (g.heard ++ g.unheard).map Outgoing.command :=
    congrArg (List.map Outgoing.command) h.commands
  obtain ⟨read, hcoherent⟩ := h.coherent
  have hold : ∀ n ∈ x.connection.awaited, ∀ t, (n, t) ∈ x'.deadlines → (n, t) ∈ x.deadlines := by
    intro n hn t ht
    refine (List.mem_append.1 ht).resolve_right fun hnew => ?_
    have := hcoherent.tidy.awaited_le n hn
    have := congrArg Prod.fst (hdeadlines _ hnew)
    dsimp only at this
    omega
  have hawaited : ∀ n ∈ x'.connection.awaited, n ∈ x.connection.awaited ∨
      n = x.connection.calls + 1 ∧ isRequest = true := by
    rw [hcall]
    exact fun n hn => Connection.mem_awaited_of_count hn
  have hmem : ∀ n ∈ x.connection.awaited, n ∈ x'.connection.awaited := by
    rw [hcall]
    exact fun n hn => Connection.mem_awaited_count hn
  refine ⟨⟨⟨⟨?_, ?_, ?_, h.isHeard, ⟨read, hcoherent.call m isRequest⟩, ?_, ?_, ?_, ?_, h.tells, h.known,
    h.distinct, h.timely, fun n hn => ?_, fun d hd => ?_⟩, ?_⟩, h.taken, h.read, ?_⟩, ?_, ?_⟩
  · exact Connection.call_isOpen.trans h.isOpen
  · rw [hcall]
    exact h.inputEnded
  · rw [hcall]
    exact h.inbox
  · rw [hcall]
    exact hcalls
  · refine (Connection.commands_call h.isOpen m isRequest).trans ?_
    rw [h.commands, List.append_assoc]
  · rw [hcall]
    exact h.sent
  · intro o ho
    obtain ho | ho := List.mem_append.1 ho
    · exact h.said o ho
    · exact List.mem_singleton.1 ho ▸ hsaid
  · obtain hn | ⟨rfl, hrequest⟩ := hawaited n hn
    · obtain ⟨q, hq, heq, hlate⟩ | ⟨o, ho, heq, hrequest, hlate⟩ := h.waits n hn
      · exact .inl ⟨q, hq, heq, fun t ht => hlate t (hold n hn t ht)⟩
      · exact .inr ⟨o, List.mem_append_left _ ho, heq, hrequest, fun t ht => hlate t (hold n hn t ht)⟩
    · refine .inr ⟨_, List.mem_append_right _ (List.mem_singleton_self _), rfl, hrequest,
        fun t ht => ?_⟩
      obtain ht | ht := List.mem_append.1 ht
      · have := h.dated _ ht
        dsimp only at this
        omega
      · exact Nat.le_of_eq (congrArg Prod.snd (hdeadlines _ ht)).symm
  · rw [hcall]
    obtain hd | hd := List.mem_append.1 hd
    · exact Nat.le_succ_of_le (h.dated d hd)
    · rw [hdeadlines d hd]
      exact Nat.le_refl _
  · rw [hcall]
    exact h.peer
  · rw [hcall]
    exact h.written
  · intro n since P hexpects
    cases hexpects with
    | @given before after o hsplit hn hrequest hwaits hsince htells =>
      have hsplit' : g'.unheard =
          before ++ o :: (after ++ [⟨x.connection.calls + 1, m, isRequest⟩]) := by
        show g.unheard ++ _ = _
        rw [hsplit, List.append_assoc]
        rfl
      exact .given hsplit' hn hrequest (hmem n hwaits) hsince htells
    | owed hq hn hwaits hsince htells => exact .owed hq hn (hmem n hwaits) hsince htells
    | told ho hP =>
      refine .told ?_ hP
      rw [hcall]
      exact ho
  · intro P hrequest htells
    refine .given (show g'.unheard = g.unheard ++ _ :: [] from rfl) rfl hrequest ?_ (Nat.le_refl now) ?_
    · rw [hcall, hrequest]
      exact List.mem_cons_self
    · rw [← hstream]
      exact htells

end Resting

/-! ### When nothing can be done -/

/-- How much there is to do at a time. -/
def load (p : Peer π) (x : Exchange π) (now : Nat) : Nat :=
  (if x.connection.queue.isEmpty then 0 else 2) + if (p.due x.peer).any (· ≤ now) then 1 else 0

theorem any_due_eq_false_iff : ((p.due x.peer).any (· ≤ now)) = false ↔
    ∀ time, p.due x.peer = some time → now < time := by
  cases p.due x.peer <;> simp

theorem isIdle_iff : x.isIdle p now = true ↔
    ((x.connection.queue = [] ∨ x.connection.isOpen = false) ∧ x.unread = []) ∧
      (∀ time, p.due x.peer = some time → now < time) ∧
        ∀ d ∈ x.deadlines, d.1 ∈ x.connection.awaited → now < d.2 := by
  rw [← any_due_eq_false_iff, isIdle]
  simp only [Bool.and_eq_true, Bool.or_eq_true, List.isEmpty_iff, Bool.not_eq_true', and_assoc,
    List.any_eq_false, decide_eq_true_eq, List.contains_iff_mem, not_and', Nat.not_le]

theorem lt_of_due (h : x.isIdle p now = true) {time : Nat} (hdue : x.due p = some time) :
    now < time := by
  obtain ⟨-, hpeer, hdeadlines⟩ := isIdle_iff.1 h
  obtain hd | hd := List.mem_append.1 (List.min?_mem hdue)
  · exact hpeer time (Option.mem_toList.1 hd)
  · obtain ⟨d, hmem, rfl⟩ := List.mem_map.1 hd
    obtain ⟨hmem, hn⟩ := List.mem_filter.1 hmem
    exact hdeadlines d hmem (List.contains_iff_mem.1 hn)

/-- The clock does not pass what the server will do by itself. -/
theorem le_due {time t : Nat} (h : ∀ due, x.due p = some due → time ≤ due)
    (ht : p.due x.peer = some t) : time ≤ t := by
  have hmem : t ∈ (p.due x.peer).toList ++
      (x.deadlines.filter fun d => x.connection.awaited.contains d.1).map (·.2) :=
    List.mem_append_left _ (Option.mem_toList.2 ht)
  cases hm : x.due p with
  | none =>
    rw [due, List.min?_eq_none_iff] at hm
    rw [hm] at hmem
    cases hmem
  | some m => exact Nat.le_trans (h m hm) ((List.min?_eq_some_iff.1 hm).2 t hmem)

namespace Resting

/-- Whatever is done, there is less to do then. -/
theorem load_settle (h : x.Resting K patience last inv now g) (hp : p.Honest K patience last inv)
    (hpos : 0 < patience) (hpatience : patience ≤ x.timeout) (hidle : x.isIdle p now = false) :
    load p (x.settle p now) now < load p x now := by
  obtain ⟨g', h', hunheard', -, -, hdue⟩ := h.settle hp hpos hpatience
  have hqueue' : (x.settle p now).connection.queue = [] := h'.queue.trans hunheard'
  rw [load, load, hqueue', h.queue]
  by_cases hunheard : g.unheard = []
  · have hnone : ((p.due (x.settle p now).peer).any (· ≤ now)) = false :=
      any_due_eq_false_iff.2 (hdue hunheard)
    have hsome : ((p.due x.peer).any (· ≤ now)) = true := by
      by_contra hnot
      rw [Bool.not_eq_true, any_due_eq_false_iff] at hnot
      exact Bool.eq_false_iff.1 hidle (isIdle_iff.2 ⟨⟨.inl (h.queue.trans hunheard), h.read⟩, hnot,
        fun d => h.not_late hpos hpatience⟩)
    rw [hunheard, hnone, hsome]
    decide
  · rw [List.isEmpty_eq_false_iff.2 hunheard, List.isEmpty_nil]
    simp only [if_true, Bool.false_eq_true, if_false]
    split <;> omega

end Resting

end Exchange

end AnySpans.Server
