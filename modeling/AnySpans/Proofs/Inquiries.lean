import AnySpans.Proofs.Answering
import AnySpans.Proofs.Servers

/-!
# Inquiries at an honest server

What the server knows of a document decides what comes of the questions about it
(`Knowledge.answer`).  An honest server makes a reliable source (`Answers.reliable`): as long as the
clock waits for it, each question has the answer that the server knows, in whatever order questions
and answers come, and none is given up.
-/

namespace AnySpans.Server

open AnySpans.Documents AnySpans.Passes AnySpans.Text

namespace Client

variable {c c' : Client} {d : Snapshot} {kind : String}

/-- A document whose language is taken is open on the server, and the client knows it. -/
structure Has (c : Client) (d : Snapshot) : Prop where
  known : (scriptKind? d.language).isSome = true → c.texts.get? d.key = some d.text
  shown : ∀ kind, scriptKind? d.language = some kind →
    filesOf c.stream d.key.path = some (d.text, some kind)

theorem Has.idle (h : c.Has d) (hi : c.Idles c') (hopen : c'.connection.isOpen = true) : c'.Has d := by
  refine ⟨fun hkind => hi.texts ▸ h.known hkind, fun kind hkind => ?_⟩
  rw [(hi.stream hopen).2]
  exact h.shown kind hkind

theorem ask_of_has (h : c.Has d) (hkind : scriptKind? d.language = some kind) (m : Command) :
    c.ask d m = ({ c with connection := c.connection.call m true }, .ok (some (c.connection.calls + 1))) := by
  have htext := h.known (Option.isSome_iff_exists.2 ⟨kind, hkind⟩)
  rw [ask, sync, hkind]
  dsimp only
  rw [if_pos htext]
  rfl

/-- A document that the client does not know is given to the server before it is asked about. -/
theorem ask_of_new (hnew : c.texts.get? d.key = none) (hkind : scriptKind? d.language = some kind)
    (hopen : c.connection.isOpen = true) (m : Command) :
    c.ask d m = (⟨(c.connection.call (.openFile d.key.path d.text (some kind)) false).call m true,
      c.texts.put d.key d.text⟩, .ok (some (c.connection.calls + 2))) := by
  have hunknown : ¬c.texts.get? d.key = some d.text := by simp [hnew]
  have hcontains : ¬c.texts.contains d.key = true := by simp [Table.contains, hnew]
  have hcalls := Connection.calls_call hopen (.openFile d.key.path d.text (some kind)) false
  rw [ask, sync, hkind]
  dsimp only
  rw [if_neg hunknown, if_neg hcontains, List.nil_append, give, if_pos hopen]
  dsimp only [request, List.foldl_cons, List.foldl_nil]
  rw [hcalls]

theorem ask_of_refused (hkind : scriptKind? d.language = none) (m : Command) :
    c.ask d m = (c, .ok none) := by
  rw [ask, sync, hkind]

theorem stream_call (hopen : c.connection.isOpen = true) (m : Command) (isRequest : Bool)
    (texts : Table String) :
    (Client.mk (c.connection.call m isRequest) texts).stream = c.stream ++ [m] :=
  stream_of_gives (Connection.gives_call hopen m isRequest) texts

theorem Has.question (h : c.Has d) (hopen : c.connection.isOpen = true) {m : Command} {file : String}
    (hm : m.AsksAbout file) : Has { c with connection := c.connection.call m true } d := by
  refine ⟨h.known, fun kind hkind => ?_⟩
  rw [stream_call hopen, filesOf_concat, after_of_other (by simp [hm.change?]) (by simp [hm.change?])]
  exact h.shown kind hkind

end Client

/-- What comes of a question about a document, by what the server knows; a document whose language the
server does not take has no answers. -/
def Knowledge.answer (K : Knowledge) (d : Snapshot) (at' : Position) : Answer :=
  (scriptKind? d.language).bind fun kind =>
    (Location.ofPosition at').toOption.bind fun l => K.info (d.text, some kind) l

/-- What is expected of a request. -/
structure Expectation where
  number : Nat
  since : Nat
  holds : Response → Prop

end AnySpans.Server

namespace AnySpans.Check.Answers

open AnySpans.Documents AnySpans.Passes AnySpans.Server AnySpans.Text

variable {π : Type} {p : Peer π} {K : Knowledge} {patience last : Nat}
  {inv : π → Nat → Files → List Debt → List UInt8 → Prop} {d : Snapshot}
  {watch : List Expectation} {room now : Nat} {a a' : Answers π} {qs : List Posed} {q : Posed}
  {c : Call} {g g' : Talk}

/-- Questions about a document are open at a server, which will answer them, as it will some other
requests. -/
structure Inquires (K : Knowledge) (patience last : Nat)
    (inv : π → Nat → Files → List Debt → List UInt8 → Prop) (d : Snapshot) (watch : List Expectation)
    (room : Nat) (a : Answers π) (now : Nat) (qs : List Posed) (number : Call → Option Nat) (g : Talk) :
    Prop where
  resting : a.exchange.Resting K patience last inv now g
  patient : patience ≤ a.exchange.timeout
  has : a.exchange.client.Has d
  room : a.exchange.connection.calls + room ≤ last
  watched : ∀ e ∈ watch, Exchange.Expects K a.exchange now g e.number e.since e.holds
  inquiries : a.inquiries = qs.map fun q => (q.call, number q.call)
  calls : (qs.map Posed.call).Nodup
  unasked : ∀ q ∈ qs, number q.call = none → K.answer d q.position = none
  asked : ∀ q ∈ qs, ∀ n, number q.call = some n →
    Exchange.Expects K a.exchange now g n q.since fun r => answerOf (.ok r) = K.answer d q.position

/-- Some questions about a document are open, and some may still be put. -/
def Known (K : Knowledge) (patience last : Nat)
    (inv : π → Nat → Files → List Debt → List UInt8 → Prop) (d : Snapshot) (watch : List Expectation)
    (room : Nat) (a : Answers π) (now : Nat) (qs : List Posed) : Prop :=
  ∃ number g, Inquires K patience last inv d watch room a now qs number g

theorem find?_posed (hcalls : (qs.map Posed.call).Nodup) (hq : q ∈ qs) :
    qs.find? (fun r => r.call == q.call) = some q := by
  cases hfind : qs.find? fun r => r.call == q.call with
  | none =>
    have := List.find?_eq_none.1 hfind q hq
    simp at this
  | some r =>
    have hcall : r.call = q.call := beq_iff_eq.1 (List.find?_some hfind :)
    rw [List.inj_on_of_nodup_map hcalls (List.mem_of_find?_eq_some hfind) hq hcall]

namespace Inquires

variable {number : Call → Option Nat}

theorem find? (h : Inquires K patience last inv d watch room a now qs number g) (hq : q ∈ qs) :
    a.inquiries.find? (fun i => i.1 == q.call) = some (q.call, number q.call) := by
  rw [h.inquiries, List.find?_map]
  exact congrArg (Option.map _) (find?_posed h.calls hq)

/-- Some questions are no longer open. -/
theorem filter (h : Inquires K patience last inv d watch room a now qs number g) (c : Call) :
    Inquires K patience last inv d watch room (a.drop c) now (qs.filter fun r => r.call ≠ c) number
      g where
  resting := h.resting
  patient := h.patient
  has := h.has
  room := h.room
  watched := h.watched
  inquiries := by
    show a.inquiries.filter _ = _
    rw [h.inquiries, List.filter_map]
    refine congrArg _ (List.filter_congr fun r _ => ?_)
    by_cases hr : r.call = c <;> simp [hr]
  calls := h.calls.sublist (List.filter_sublist.map _)
  unasked r hr := h.unasked r (List.mem_filter.1 hr).1
  asked r hr := h.asked r (List.mem_filter.1 hr).1

/-- A question is put, whether it is a request or not. -/
theorem put {room' : Nat} (h : Inquires K patience last inv d watch room' a now qs number g)
    (hfresh : ∀ q ∈ qs, q.call ≠ c) {x : Exchange π} {at' : Position} {n? : Option Nat}
    (hresting : x.Resting K patience last inv now g') (htimeout : x.timeout = a.exchange.timeout)
    (hhas : x.client.Has d) (hroom : x.connection.calls + room ≤ last)
    (hleads : Exchange.Leads K a.exchange now g x g') (hnone : n? = none → K.answer d at' = none)
    (hsome : ∀ n, n? = some n →
      Exchange.Expects K x now g' n now fun r => answerOf (.ok r) = K.answer d at') :
    Known K patience last inv d watch room (a.note c x n?) now (qs ++ [⟨c, at', now⟩]) := by
  have hold : ∀ q ∈ qs, Function.update number c n? q.call = number q.call :=
    fun q hq => Function.update_of_ne (hfresh q hq) _ _
  have hnew : Function.update number c n? c = n? := Function.update_self ..
  refine ⟨Function.update number c n?, g', hresting, htimeout ▸ h.patient, hhas, hroom,
    fun e he => hleads _ _ _ (h.watched e he), ?_, ?_, fun q hq => ?_, fun q hq => ?_⟩
  · show a.inquiries ++ [(c, n?)] = _
    rw [List.map_append, h.inquiries, List.map_singleton, hnew]
    refine congrArg (· ++ [(c, n?)]) (List.map_congr_left fun q hq => ?_)
    rw [hold q hq]
  · rw [List.map_append, List.map_singleton, List.nodup_append]
    refine ⟨h.calls, List.nodup_singleton c, fun c₁ hc₁ c₂ hc₂ heq => ?_⟩
    obtain ⟨q, hq, rfl⟩ := List.mem_map.1 hc₁
    exact hfresh q hq (heq.trans (List.mem_singleton.1 hc₂))
  · obtain hq | hq := List.mem_append.1 hq
    · rw [hold q hq]
      exact h.unasked q hq
    · obtain rfl := List.mem_singleton.1 hq
      rw [hnew]
      exact hnone
  · obtain hq | hq := List.mem_append.1 hq
    · rw [hold q hq]
      exact fun n hn => hleads _ _ _ (h.asked q hq n hn)
    · obtain rfl := List.mem_singleton.1 hq
      rw [hnew]
      exact hsome

/-- A question that has no answer. -/
theorem silent (h : Inquires K patience last inv d watch (room + 1) a now qs number g)
    (hfresh : ∀ q ∈ qs, q.call ≠ c) {at' : Position} (hanswer : K.answer d at' = none) :
    Known K patience last inv d watch room (a.note c a.exchange none) now (qs ++ [⟨c, at', now⟩]) :=
  h.put hfresh h.resting rfl h.has (Nat.le_of_succ_le h.room) (fun _ _ _ he => he) (fun _ => hanswer)
    nofun

/-- A question that is a request. -/
theorem request (h : Inquires K patience last inv d watch (room + 1) a now qs number g)
    (hfresh : ∀ q ∈ qs, q.call ≠ c) {at' : Position} {l : Location}
    (hat : Location.ofPosition at' = .ok l) {kind : String} (hkind : scriptKind? d.language = some kind) :
    let n := a.exchange.connection.calls + 1
    let client := { a.exchange.client with
      connection := a.exchange.connection.call (.quickInfo d.key.path l) true }
    Known K patience last inv d watch room
      (a.note c (({ a.exchange with client } : Exchange π).await now n) (some n)) now
      (qs ++ [⟨c, at', now⟩]) := by
  intro n client
  have habout : (Command.quickInfo d.key.path l).AsksAbout d.key.path := .inl ⟨l, rfl⟩
  have hroom := h.room
  obtain ⟨hresting, hleads, hexpects⟩ := h.resting.call (.asked habout) (by omega)
    a.exchange.client.texts fun _ (hd : _ ∈ [(n, now + a.exchange.timeout)]) => List.mem_singleton.1 hd
  have hanswer : K.answer d at' = K.info (d.text, some kind) l := by
    rw [Knowledge.answer, hkind, hat]
    rfl
  refine h.put hfresh hresting rfl (h.has.question h.resting.isOpen habout) ?_ hleads nofun ?_
  · have hcalls := Connection.calls_call h.resting.isOpen (.quickInfo d.key.path l) true
    show (a.exchange.connection.call (.quickInfo d.key.path l) true).calls + room ≤ last
    omega
  · rintro _ ⟨⟩
    refine hexpects _ rfl fun r hr => ?_
    rw [hanswer]
    exact hr.info _ _ _ rfl (h.has.shown kind hkind)

/-- The server works. -/
theorem settle (h : Inquires K patience last inv d watch room a now qs number g)
    (hp : p.Honest K patience last inv) (hpos : 0 < patience) :
    Known K patience last inv d watch room { a with exchange := a.exchange.settle p now } now qs := by
  obtain ⟨g', hresting, -, hleads, htimeout, -⟩ := h.resting.settle hp hpos h.patient
  have hidles := Exchange.idles_settle p a.exchange now
  refine ⟨number, g', hresting, ?_, h.has.idle hidles hresting.isOpen, ?_,
    fun e he => hleads _ _ _ (h.watched e he), h.inquiries, h.calls, h.unasked,
    fun q hq n hn => hleads _ _ _ (h.asked q hq n hn)⟩
  · exact htimeout ▸ h.patient
  · have hcalls : (a.exchange.settle p now).connection.calls = a.exchange.connection.calls :=
      hidles.calls hresting.isOpen
    show (a.exchange.settle p now).connection.calls + room ≤ last
    exact hcalls ▸ h.room

/-- When nothing can be done, the server has heard all commands. -/
theorem unheard (h : Inquires K patience last inv d watch room a now qs number g)
    (hidle : a.exchange.isIdle p now = true) : g.unheard = [] := by
  obtain ⟨⟨hqueue, -⟩, -⟩ := Exchange.isIdle_iff.1 hidle
  have hclosed : ¬a.exchange.connection.isOpen = false := by simp [h.resting.isOpen]
  exact h.resting.queue.symm.trans (hqueue.resolve_right hclosed)

/-- Time passes up to when something is due. -/
theorem wait (h : Inquires K patience last inv d watch room a now qs number g)
    (hp : p.Honest K patience last inv) (hidle : a.exchange.isIdle p now = true) {time : Nat}
    (hle : now ≤ time) (hdue : ∀ t, a.exchange.due p = some t → time ≤ t) :
    Known K patience last inv d watch room a time qs := by
  obtain ⟨hresting, hexpects⟩ :=
    h.resting.wait hp (h.unheard hidle) hle fun t ht => Exchange.le_due hdue ht
  exact ⟨number, g, hresting, h.patient, h.has, h.room, fun e he => hexpects _ _ _ (h.watched e he),
    h.inquiries, h.calls, h.unasked, fun q hq n hn => hexpects _ _ _ (h.asked q hq n hn)⟩

/-- What looking at an open question finds. -/
theorem look (h : Inquires K patience last inv d watch room a now qs number g) (hq : q ∈ qs)
    (hpos : 0 < patience) :
    (a.look now q.call = (a.drop q.call, some (K.answer d q.position))) ∨
      (a.look now q.call = (a, none) ∧ now < q.since + patience) := by
  unfold Answers.look
  rw [h.find? hq]
  cases hnumber : number q.call with
  | none =>
    refine .inl ?_
    rw [h.unasked q hq hnumber]
  | some n =>
    have hexpects := h.asked q hq n hnumber
    dsimp only
    cases ho : a.exchange.connection.outcome? n with
    | some o =>
      obtain ⟨r, rfl, hr⟩ := hexpects.exists_of_outcome? h.resting.toSound ho
      refine .inl ?_
      dsimp only
      rw [hr]
    | none => exact .inr ⟨rfl, hexpects.lt_of_outcome?_eq_none h.resting.toSound hpos ho⟩

end Inquires

theorem work_eq_some {calls : List Call} (h : a.work p now = some (a', calls)) :
    a.exchange.isIdle p now = false ∧ a' = { a with exchange := a.exchange.settle p now } ∧
      ∀ c ∈ calls, ∃ i ∈ a.inquiries, i.1 = c := by
  unfold work at h
  split at h
  · cases h
  · rename_i hidle
    cases h
    refine ⟨Bool.eq_false_iff.2 hidle, rfl, fun c hc => ?_⟩
    obtain ⟨i, hi, rfl⟩ := List.mem_map.1 hc
    exact ⟨i, (List.mem_filter.1 hi).1, rfl⟩

theorem work_eq_none (h : a.work p now = none) : a.exchange.isIdle p now = true := by
  unfold work at h
  split at h
  · assumption
  · cases h

/-- An honest server answers reliably, and in time. -/
theorem reliable (hp : p.Honest K patience last inv) (hpos : 0 < patience) (d : Snapshot)
    {timeout : Nat} (htimeout : patience ≤ timeout) (watch : List Expectation) :
    (source p).Reliable d timeout True (K.answer d) (Known K patience last inv d watch)
      fun a now => Exchange.load p a.exchange now where
  ask := fun {room a now qs c} at' h hfresh => by
    obtain ⟨number, g, h⟩ := h
    show Known K patience last inv d watch room (a.ask now c d at') now _
    unfold ask
    cases hat : Location.ofPosition at' with
    | error f =>
      refine h.silent hfresh ?_
      rw [Knowledge.answer, hat]
      cases scriptKind? d.language <;> rfl
    | ok l =>
      cases hkind : scriptKind? d.language with
      | none =>
        dsimp only
        rw [Client.askInfo, Client.ask_of_refused hkind]
        exact h.silent hfresh (by rw [Knowledge.answer, hkind]; rfl)
      | some kind =>
        dsimp only
        rw [Client.askInfo, Client.ask_of_has h.has hkind]
        exact h.request hfresh hat hkind
  found := fun {room a a' now qs q answer} h hq hl => by
    obtain ⟨number, g, h⟩ := h
    obtain hlook | ⟨hlook, -⟩ := h.look hq hpos
    · obtain ⟨rfl, hanswer⟩ := Prod.mk.inj (hlook.symm.trans hl)
      exact ⟨(Option.some.inj hanswer).symm, number, g, h.filter q.call⟩
    · cases hlook.symm.trans hl
  pending := fun {room a a' now qs q} h hq hl => by
    obtain ⟨number, g, h⟩ := h
    obtain hlook | ⟨hlook, -⟩ := h.look hq hpos
    · cases hlook.symm.trans hl
    · obtain ⟨rfl, -⟩ := Prod.mk.inj (hlook.symm.trans hl)
      exact ⟨⟨number, g, h⟩, Nat.le_refl _⟩
  late := fun {room a a' now qs q} h hq hl hlate => by
    obtain ⟨number, g, h⟩ := h
    obtain hlook | ⟨-, hlt⟩ := h.look hq hpos
    · cases hlook.symm.trans hl
    · omega
  work := fun {room a a' now qs calls} h hw => by
    obtain ⟨number, g, h⟩ := h
    obtain ⟨hidle, rfl, hcalls⟩ := work_eq_some hw
    refine ⟨h.settle hp hpos, h.resting.load_settle hp hpos h.patient hidle, fun c hc => ?_⟩
    obtain ⟨i, hi, rfl⟩ := hcalls c hc
    rw [h.inquiries] at hi
    obtain ⟨q, hq, rfl⟩ := List.mem_map.1 hi
    exact ⟨q, hq, rfl⟩
  rest := fun h hw hdue => Exchange.lt_of_due (work_eq_none hw) hdue
  wait := fun {room a now time qs} h hlt hdue _ hpatient => by
    obtain ⟨number, g, h⟩ := h
    exact h.wait hp (work_eq_none (hpatient trivial)) (Nat.le_of_lt hlt) hdue

/-! ### Requests that are watched -/

theorem Known.unwatch (h : Known K patience last inv d watch room a now qs) :
    Known K patience last inv d [] room a now qs := by
  obtain ⟨number, g, h⟩ := h
  exact ⟨number, g, h.resting, h.patient, h.has, h.room, nofun, h.inquiries, h.calls, h.unasked, h.asked⟩

/-- What a request that is watched comes to is what is expected. -/
theorem Known.exists_of_outcome? (h : Known K patience last inv d watch room a now qs)
    {e : Expectation} (he : e ∈ watch) {o : Server.Outcome}
    (ho : a.exchange.connection.outcome? e.number = some o) : ∃ r, o = .ok r ∧ e.holds r := by
  obtain ⟨number, g, h⟩ := h
  exact (h.watched e he).exists_of_outcome? h.resting.toSound ho

/-- When nothing can be done, the server will do something in time for a request that is watched. -/
theorem Known.due (h : Known K patience last inv d watch room a now qs)
    (hp : p.Honest K patience last inv) (hpos : 0 < patience) (hwork : a.work p now = none)
    {e : Expectation} (he : e ∈ watch)
    (ho : a.exchange.connection.outcome? e.number = none) :
    now < e.since + patience ∧ (a.exchange.due p).isSome = true := by
  obtain ⟨number, g, h⟩ := h
  have hexpects := h.watched e he
  refine ⟨hexpects.lt_of_outcome?_eq_none h.resting.toSound hpos ho, ?_⟩
  obtain ⟨left, hinv, -⟩ := h.resting.peer
  cases hexpects with
  | given hsplit =>
    rw [h.unheard (work_eq_none hwork)] at hsplit
    cases (List.append_eq_nil_iff.1 hsplit.symm).2
  | @owed q hq =>
    have howed : q ∈ unsettled g.owed g.came := by
      rw [h.resting.taken, unsettled_nil]
      exact hq
    obtain ⟨time, hdue, -⟩ := hp.prompt hinv howed
    by_contra hnone
    rw [Option.not_isSome_iff_eq_none, Exchange.due, List.min?_eq_none_iff, hdue] at hnone
    cases hnone
  | told ho' => cases ho.symm.trans ho'

/-! ### A document that is given to the server -/

/-- A document that the client does not know is given to the server, which is asked for the remarks on
it. -/
theorem known_of_askRemarks {x : Exchange π} {kind : String}
    (h : x.Resting K patience last inv now g) (hpatient : patience ≤ x.timeout)
    (hkind : scriptKind? d.language = some kind) (hnew : x.client.texts.get? d.key = none)
    (hroom : x.connection.calls + 2 + room ≤ last) :
    let n := x.connection.calls + 2
    ∃ client, x.client.askRemarks d = (client, .ok (some n)) ∧
      Known K patience last inv d
        [⟨n, now, fun r => (readErrors (.ok r)).toOption = K.errors (d.text, some kind)⟩] room
        ⟨({ x with client } : Exchange π).await now n, []⟩ now [] := by
  intro n
  refine ⟨_, Client.ask_of_new hnew hkind h.isOpen _, ?_⟩
  let x₁ : Exchange π := { x with
    client := ⟨x.connection.call (.openFile d.key.path d.text (some kind)) false,
      x.client.texts.put d.key d.text⟩ }
  have hgiven := h.call (.opened _ d.key.path d.text (some kind)) (by omega)
    (x.client.texts.put d.key d.text) fun _ (hd : _ ∈ []) => by cases hd
  rw [List.append_nil] at hgiven
  obtain ⟨h₁, -, -⟩ : x₁.Resting K patience last inv now _ ∧ _ := hgiven
  have hcalls : x₁.connection.calls = x.connection.calls + 1 := Connection.calls_call h.isOpen _ _
  have hshown : filesOf x₁.client.stream d.key.path = some (d.text, some kind) := by
    refine (congrArg (fun ms => filesOf ms _) (Client.stream_call h.isOpen _ _ _)).trans ?_
    rw [filesOf_concat, after_openFile]
    exact if_pos rfl
  have habout : (Command.remarks d.key.path).AsksAbout d.key.path := .inr rfl
  have hasked := h₁.call (.asked habout) (by omega) (x.client.texts.put d.key d.text)
    fun _ (hd : _ ∈ [(n, now + x.timeout)]) => by rw [hcalls]; exact List.mem_singleton.1 hd
  rw [hcalls] at hasked
  obtain ⟨h₂, -, hexpects⟩ := hasked
  have hhas : x₁.client.Has d := by
    refine ⟨fun _ => ?_, fun kind' hkind' => ?_⟩
    · exact (Table.get?_put ..).trans (if_pos BEq.rfl)
    · obtain rfl := Option.some.inj (hkind.symm.trans hkind')
      exact hshown
  refine ⟨fun _ => none, _, h₂, hpatient, hhas.question h₁.isOpen habout, ?_, fun e he => ?_, rfl, .nil,
    nofun, nofun⟩
  · have := Connection.calls_call h₁.isOpen (.remarks d.key.path) true
    show (x₁.connection.call (.remarks d.key.path) true).calls + room ≤ last
    omega
  · obtain rfl := List.mem_singleton.1 he
    exact hexpects _ rfl fun r hr => hr.errors _ _ rfl hshown

end AnySpans.Check.Answers
