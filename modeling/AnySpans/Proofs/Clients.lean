import AnySpans.Proofs.Connections
import AnySpans.Server.Client
import Mathlib.Data.List.Induction

/-!
# What a client does

The calls of a client, one after another and with whatever happens to its connection in between
(`Client.Run`).  On a live connection a call comes to one of a few things, and what it comes to says
which commands were given (`Connection.Gives`).
-/

namespace AnySpans.Server

open AnySpans.Documents

/-! ### Commands that are given -/

namespace Connection

/-- Commands are put into the queue of an open connection. -/
structure Gives (k : Connection) (ms : List Command) (k' : Connection) : Prop where
  isOpen : k'.isOpen = true
  calls_le : k.calls ≤ k'.calls
  commands : ∃ new, k'.commands = k.commands ++ new ∧ new.map Outgoing.command = ms

variable {k k' k'' : Connection} {ms ms' : List Command}

theorem Gives.trans (h : k.Gives ms k') (h' : k'.Gives ms' k'') : k.Gives (ms ++ ms') k'' := by
  obtain ⟨-, hcalls, new, hnew, rfl⟩ := h
  obtain ⟨hopen, hcalls', new', hnew', rfl⟩ := h'
  refine ⟨hopen, Nat.le_trans hcalls hcalls', new ++ new', ?_, List.map_append⟩
  rw [hnew', hnew, List.append_assoc]

theorem commands_call (h : k.isOpen = true) (m : Command) (isRequest : Bool) :
    (k.call m isRequest).commands = k.commands ++ [⟨k.calls + 1, m, isRequest⟩] := by
  rw [call_of_isOpen h]
  exact (List.append_assoc ..).symm

theorem calls_call (h : k.isOpen = true) (m : Command) (isRequest : Bool) :
    (k.call m isRequest).calls = k.calls + 1 := by
  rw [call_of_isOpen h]
  rfl

theorem gives_call (h : k.isOpen = true) (m : Command) (isRequest : Bool) :
    k.Gives [m] (k.call m isRequest) := by
  have hcalls := calls_call h m isRequest
  exact ⟨call_isOpen.trans h, by omega, _, commands_call h m isRequest, rfl⟩

theorem gives_foldl_call (h : k.isOpen = true) (ms : List Command) :
    k.Gives ms (ms.foldl (fun k m => k.call m false) k) := by
  induction ms generalizing k with
  | nil => exact ⟨h, Nat.le_refl _, [], (List.append_nil _).symm, rfl⟩
  | cons m ms ih =>
    have hcall := gives_call h m false
    exact hcall.trans (ih hcall.isOpen)

/-- What happens on an open connection gives no commands and loses none, unless it ends. -/
theorem Steps.commands_eq {i : Incident} {read : List Message} (h : k.Steps i read k')
    (hi : ∀ m isRequest, i ≠ .called m isRequest) (hopen : k'.isOpen = true) :
    k.isOpen = true ∧ k'.calls = k.calls ∧ k'.commands = k.commands := by
  cases h with
  | called m isRequest => exact absurd rfl (hi m isRequest)
  | @wrote o queue hopen hqueue =>
    refine ⟨hopen, rfl, ?_⟩
    simp [commands, hqueue]
  | routed hlive hinbox => exact ⟨hlive, route_calls, by simp [commands]⟩
  | timedOut command hn => exact ⟨by simpa using hopen, resolve_calls, by simp [commands]⟩
  | writeFailed => cases finish_isOpen.symm.trans hopen
  | ended => cases finish_isOpen.symm.trans hopen
  | brokeDown => cases finish_isOpen.symm.trans hopen
  | dropped => cases finish_isOpen.symm.trans hopen
  | _ => exact ⟨hopen, rfl, rfl⟩

end Connection

namespace Client

/-! ### What a client does -/

/-- A call of a client, or something that happens to its connection. -/
inductive Move where
  | sync (d : Snapshot)
  | forget (k : Key)
  | askInfo (d : Snapshot) (at' : Location)
  | askRemarks (d : Snapshot)
  | happened (i : Incident)

namespace Move

/-- The document that is given to the server, or asked about. -/
def document? : Move → Option Snapshot
  | .sync d => some d
  | .askInfo d _ => some d
  | .askRemarks d => some d
  | _ => none

/-- The document that a call is about. -/
def key? : Move → Option Key
  | .forget k => some k
  | m => m.document?.map Snapshot.key

theorem key?_of_document? {m : Move} {d : Snapshot} (h : m.document? = some d) :
    m.key? = some d.key := by
  cases m <;> cases h <;> rfl

end Move

/-- A document is spelt in the same way by all moves that are about it. -/
def SpeltAs (k : Key) (ms : List Move) : Prop :=
  ∀ m ∈ ms, ∀ j, m.key? = some j → (j == k) = true → j.path = k.path

section

variable {j k : Key} {ms : List Move} {m : Move}

theorem SpeltAs.of_concat (h : SpeltAs k (ms ++ [m])) : SpeltAs k ms :=
  fun m' hm' => h m' (List.mem_append_left _ hm')

theorem SpeltAs.path_eq (h : SpeltAs k (ms ++ [m])) (hm : m.key? = some j) (hj : (j == k) = true) :
    j.path = k.path :=
  h m (List.mem_append_right _ List.mem_cons_self) j hm hj

/-- Moves that are about one path spell its document alike. -/
theorem path_eq_of_all {path : String}
    (h : (ms.all fun m => m.key?.all fun j => j.path == path) = true) (hm : m ∈ ms)
    (hj : m.key? = some j) : j.path = path := by
  have := List.all_eq_true.1 h m hm
  rw [hj] at this
  exact beq_iff_eq.1 this

theorem speltAs_of_all {path : String}
    (h : (ms.all fun m => m.key?.all fun j => j.path == path) = true) (hk : k.path = path) :
    SpeltAs k ms :=
  fun _ hm _ hj _ => (path_eq_of_all h hm hj).trans hk.symm

end

/-- The documents that were given to the server, as they were when they were given. -/
def documents (ms : List Move) : List Snapshot := ms.filterMap Move.document?

/-- Whether a document has been given and not taken away since, from whether it had been before. -/
def keeps (k : Key) (isKept : Bool) : Move → Bool
  | .forget j => isKept && !j == k
  | m => isKept || m.document?.any fun d => d.key == k && (scriptKind? d.language).isSome

/-- Whether a document was given and not taken away since. -/
def isKept (k : Key) (ms : List Move) : Bool := ms.foldl (keeps k) false

section

variable {k : Key} {ms : List Move} {m : Move} {d : Snapshot}

theorem mem_documents_concat (h : d ∈ documents ms) (m : Move) : d ∈ documents (ms ++ [m]) := by
  rw [documents, List.filterMap_append]
  exact List.mem_append_left _ h

theorem mem_documents_of_document? (hm : m.document? = some d) : d ∈ documents (ms ++ [m]) := by
  rw [documents, List.filterMap_append]
  exact List.mem_append_right _ (by simp [hm])

theorem isKept_concat (k : Key) (ms : List Move) (m : Move) :
    isKept k (ms ++ [m]) = keeps k (isKept k ms) m := List.foldl_append

theorem isKept_of_concat (hm : m.document? = some d) (h : isKept k (ms ++ [m]) = false) :
    isKept k ms = false := by
  rw [isKept_concat] at h
  cases m <;> simp_all [keeps, Move.document?]

end

/-- The number of a question with its document. -/
def numbered (d : Snapshot) : Except Failure (Option Nat) → List (Nat × Snapshot)
  | .ok (some n) => [(n, d)]
  | _ => []

variable (c : Client)

/-- The client after a move; none if it is not possible.  Commands are given by calls only. -/
def move? : Move → Option Client
  | .sync d => some (c.sync d).1
  | .forget k => some (c.forget k).1
  | .askInfo d p => some (c.askInfo d p).1
  | .askRemarks d => some (c.askRemarks d).1
  | .happened (.called _ _) => none
  | .happened i => (c.connection.step? i).map fun k => { c with connection := k }

/-- The question that is asked by a move, if any. -/
def asks : Move → List (Nat × Snapshot)
  | .askInfo d p => numbered d (c.askInfo d p).2
  | .askRemarks d => numbered d (c.askRemarks d).2
  | _ => []

/-- A client makes some moves and asks some questions. -/
inductive Run : List Move → List (Nat × Snapshot) → Client → Prop
  | start : Run [] [] new
  | move {ms : List Move} {asked : List (Nat × Snapshot)} {c c' : Client} {m : Move} :
    Run ms asked c → c.move? m = some c' → Run (ms ++ [m]) (asked ++ c.asks m) c'

/-- The commands the client has given. -/
def stream : List Command := c.connection.commands.map Outgoing.command

/-- What giving a document's text to the server comes to. -/
inductive Syncs (d : Snapshot) : Client × Except Failure Bool → Prop
  | refused : scriptKind? d.language = none → Syncs d (c, .ok false)
  | known {kind : String} : scriptKind? d.language = some kind → c.texts.get? d.key = some d.text →
    Syncs d (c, .ok true)
  | given {kind : String} {k : Connection} : scriptKind? d.language = some kind →
    c.texts.get? d.key ≠ some d.text →
    c.connection.Gives ((if c.texts.contains d.key then [.closeFile d.key.path] else []) ++
      [.openFile d.key.path d.text (some kind)]) k →
    Syncs d (⟨k, c.texts.put d.key d.text⟩, .ok true)

/-- What taking a document's text from the server comes to. -/
inductive Forgets (j : Key) : Client × Except Failure Unit → Prop
  | unknown : c.texts.get? j = none → Forgets j (c, .ok ())
  | closed {k : Connection} : c.texts.contains j = true →
    c.connection.Gives [.closeFile j.path] k → Forgets j (⟨k, c.texts.erase j⟩, .ok ())

variable {c}

theorem give_of_isOpen (h : c.connection.isOpen = true) (ms : List Command) :
    ∃ k, c.give ms = .ok { c with connection := k } ∧ c.connection.Gives ms k :=
  ⟨_, if_pos h, Connection.gives_foldl_call h ms⟩

theorem give_of_closed (h : c.connection.isOpen = false) (ms : List Command) :
    c.give ms = .error .stopped := if_neg (Bool.eq_false_iff.1 h)

theorem syncs (h : c.connection.isOpen = true) (d : Snapshot) : c.Syncs d (c.sync d) := by
  unfold sync
  split
  · exact .refused ‹_›
  · rename_i kind hkind
    by_cases hknown : c.texts.get? d.key = some d.text
    · rw [if_pos hknown]
      exact .known hkind hknown
    · rw [if_neg hknown]
      obtain ⟨k, hgive, hgives⟩ := give_of_isOpen h
        ((if c.texts.contains d.key then [.closeFile d.key.path] else []) ++
          [.openFile d.key.path d.text (some kind)])
      simp only [hgive]
      exact .given hkind hknown hgives

theorem forgets (h : c.connection.isOpen = true) (j : Key) : c.Forgets j (c.forget j) := by
  unfold forget
  by_cases hknown : c.texts.contains j = true
  · rw [if_pos hknown]
    have hopen : ({ c with texts := c.texts.erase j } : Client).connection.isOpen = true := h
    obtain ⟨k, hgive, hgives⟩ := give_of_isOpen hopen [.closeFile j.path]
    simp only [hgive]
    exact .closed hknown hgives
  · rw [if_neg hknown]
    exact .unknown (Option.not_isSome_iff_eq_none.1 hknown)

/-- A question is put unless the document's language is not taken. -/
theorem ask_cases (h : c.connection.isOpen = true) (d : Snapshot) (m : Command) :
    (scriptKind? d.language = none ∧ c.ask d m = (c, .ok none)) ∨
      ∃ c₁, c.Syncs d (c₁, .ok true) ∧ c₁.connection.isOpen = true ∧
        c.ask d m = ({ c₁ with connection := c₁.connection.call m true },
          .ok (some (c₁.connection.calls + 1))) := by
  have hsync := c.syncs h d
  unfold ask
  generalize c.sync d = r at hsync
  cases hsync with
  | refused hkind => exact .inl ⟨hkind, rfl⟩
  | known hkind hknown => exact .inr ⟨c, .known hkind hknown, h, rfl⟩
  | given hkind hnew hgives => exact .inr ⟨_, .given hkind hnew hgives, hgives.isOpen, rfl⟩

theorem connection_sync_of_closed (h : c.connection.isOpen = false) (d : Snapshot) :
    (c.sync d).1.connection = c.connection := by
  unfold sync
  split
  · rfl
  · rename_i kind _
    by_cases hknown : c.texts.get? d.key = some d.text
    · rw [if_pos hknown]
    · rw [if_neg hknown]
      simp only [give_of_closed h]

theorem isOpen_ask_of_closed (h : c.connection.isOpen = false) (d : Snapshot) (m : Command) :
    (c.ask d m).1.connection.isOpen = false := by
  have hsync := connection_sync_of_closed h d
  unfold ask
  split <;> rename_i heq <;> rw [heq] at hsync
  · exact hsync ▸ h
  · exact hsync ▸ h
  · exact Connection.call_isOpen.trans (hsync ▸ h)

theorem step?_of_move? {c' : Client} {i : Incident} (hm : c.move? (.happened i) = some c') :
    (∀ m isRequest, i ≠ .called m isRequest) ∧
      ∃ k, c.connection.step? i = some k ∧ c' = { c with connection := k } := by
  have hmap : ∀ k? : Option Connection, k?.map (fun k => { c with connection := k }) = some c' →
      ∃ k, k? = some k ∧ c' = { c with connection := k } := by
    intro k? hmap
    obtain ⟨k, hk, rfl⟩ := Option.map_eq_some_iff.1 hmap
    exact ⟨k, hk, rfl⟩
  cases i with
  | called m isRequest => cases hm
  | _ => exact ⟨nofun, hmap _ hm⟩

/-- A connection that has ended stays so. -/
theorem isOpen_of_move? {c' : Client} {m : Move} (hm : c.move? m = some c')
    (h : c'.connection.isOpen = true) : c.connection.isOpen = true := by
  by_contra hclosed
  rw [Bool.not_eq_true] at hclosed
  cases m with
  | sync d =>
    cases hm
    rw [connection_sync_of_closed hclosed, hclosed] at h
    cases h
  | forget k =>
    cases hm
    have hgone : ({ c with texts := c.texts.erase k } : Client).connection.isOpen = false := hclosed
    by_cases hknown : c.texts.contains k = true
    · rw [forget, if_pos hknown] at h
      simp only [give_of_closed hgone] at h
      cases hclosed.symm.trans h
    · rw [forget, if_neg hknown] at h
      cases hclosed.symm.trans h
  | askInfo d p =>
    cases hm
    cases (isOpen_ask_of_closed hclosed d _).symm.trans h
  | askRemarks d =>
    cases hm
    cases (isOpen_ask_of_closed hclosed d _).symm.trans h
  | happened i =>
    obtain ⟨hi, k, hk, rfl⟩ := step?_of_move? hm
    have hlive := (Connection.steps_of_step? hk).commands_eq hi h
    cases hclosed.symm.trans hlive.1

/-! ### Runs that are played -/

/-- The questions and the client after some moves; none if one of them is not possible. -/
def play (ms : List Move) : Option (List (Nat × Snapshot) × Client) :=
  ms.foldlM (fun p m => (p.2.move? m).map fun c => (p.1 ++ p.2.asks m, c)) ([], new)

theorem run_of_play {ms : List Move} {p : List (Nat × Snapshot) × Client} (h : play ms = some p) :
    Run ms p.1 p.2 := by
  induction ms using List.reverseRecOn generalizing p with
  | nil =>
    cases h
    exact .start
  | append_singleton ms m ih =>
    rw [play, List.foldlM_append] at h
    obtain ⟨q, hq, hlast⟩ := Option.bind_eq_some_iff.1 h
    obtain ⟨q', hmap, hq'⟩ := Option.bind_eq_some_iff.1 hlast
    cases hq'
    obtain ⟨c, hc, rfl⟩ := Option.map_eq_some_iff.1 hmap
    exact (ih hq).move hc

end Client

end AnySpans.Server
