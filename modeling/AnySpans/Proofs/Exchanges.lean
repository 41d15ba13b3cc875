import AnySpans.Check.Answers
import AnySpans.Proofs.OpenFiles

/-!
# What goes on with a server

Between the calls of a client, incidents happen on its connection (`Client.Idles`): that is all that
an exchange with a server does by itself, whatever the server does (`Exchange.idles_settle`).  The
client gives no commands in that time, and what it knows of the texts stays as it is.
-/

namespace AnySpans.Server

open AnySpans.Documents

/-- Whether an incident is that a command is given. -/
def Incident.isCalled : Incident → Bool
  | .called _ _ => true
  | _ => false

namespace Client

variable {c c' c'' : Client} {i : Incident}

/-- Incidents happen on the connection of a client that gives no commands. -/
inductive Idles (c : Client) : Client → Prop
  | refl : Idles c c
  | happened {c₁ : Client} {i : Incident} {k : Connection} : Idles c c₁ →
    i.isCalled = false → c₁.connection.step? i = some k →
    Idles c { c₁ with connection := k }

namespace Idles

theorem trans (h : c.Idles c') (h' : c'.Idles c'') : c.Idles c'' := by
  induction h' with
  | refl => exact h
  | happened _ hi hs ih => exact ih.happened hi hs

/-- The connection after an incident, if the incident is possible. -/
theorem step (h : c.Idles c') (hi : i.isCalled = false) :
    c.Idles { c' with connection := c'.connection.step i } := by
  unfold Connection.step
  cases hs : c'.connection.step? i with
  | none => exact h
  | some k => exact h.happened hi hs

theorem texts (h : c.Idles c') : c'.texts = c.texts := by
  induction h with
  | refl => rfl
  | happened _ _ _ ih => exact ih

/-- As long as the connection is open, no command is lost. -/
theorem stream (h : c.Idles c') (hopen : c'.connection.isOpen = true) :
    c.connection.isOpen = true ∧ c'.stream = c.stream := by
  induction h with
  | refl => exact ⟨hopen, rfl⟩
  | happened _ hi hs ih =>
    obtain ⟨hlive, -, hcommands⟩ := (Connection.steps_of_step? hs).commands_eq
      (fun m isRequest heq => by cases heq ▸ hi) hopen
    obtain ⟨hlive, hstream⟩ := ih hlive
    exact ⟨hlive, (congrArg (List.map Outgoing.command) hcommands).trans hstream⟩

theorem calls (h : c.Idles c') (hopen : c'.connection.isOpen = true) :
    c'.connection.calls = c.connection.calls := by
  induction h with
  | refl => rfl
  | happened _ hi hs ih =>
    obtain ⟨hlive, hcalls, -⟩ := (Connection.steps_of_step? hs).commands_eq
      (fun m isRequest heq => by cases heq ▸ hi) hopen
    exact hcalls.trans (ih hlive)

end Idles

end Client

namespace Exchange

variable {π : Type} {x x' : Exchange π}

theorem idles_happen (x : Exchange π) {i : Incident} (hi : i.isCalled = false) :
    x.client.Idles (x.happen i).client := Client.Idles.refl.step hi

theorem idles_abandon (x : Exchange π) (number : Nat) :
    x.client.Idles (x.abandon number).client := Client.Idles.refl.step rfl

theorem idles_expire (x : Exchange π) (now : Nat) : x.client.Idles (x.expire now).client := by
  have hfold : ∀ (late : List (Nat × Nat)) (x : Exchange π), x.client.Idles
      (late.foldl (fun x d => x.happen (.timedOut d.1 x.timeout)) x).client := by
    intro late
    induction late with
    | nil => exact fun x => .refl
    | cons d late ih => exact fun x => (x.idles_happen rfl).trans (ih _)
  unfold expire
  exact hfold (List.partition _ _).1 { x with deadlines := (List.partition _ _).2 }

theorem idles_doDeed (x : Exchange π) (d : Deed) : x.client.Idles (x.doDeed d).client := by
  cases d with
  | send bytes => exact x.idles_happen rfl
  | closeInput => exact .refl
  | close => exact idles_happen { x with isHeard := false, unread := [] } rfl

theorem idles_foldl_doDeed (deeds : List Deed) (x : Exchange π) :
    x.client.Idles (deeds.foldl doDeed x).client := by
  induction deeds generalizing x with
  | nil => exact .refl
  | cons d deeds ih => exact (x.idles_doDeed d).trans (ih _)

theorem idles_act (p : Peer π) (x : Exchange π) (now : Nat) :
    x.client.Idles (x.act p now).client := by
  unfold act
  rcases p.act x.peer now with ⟨peer, deeds⟩
  exact idles_foldl_doDeed deeds { x with peer }

theorem idles_write (os : List Outgoing) (x : Exchange π) : x.client.Idles (write os x).client := by
  induction os generalizing x with
  | nil => exact .refl
  | cons o os ih =>
    unfold write
    split
    · exact (x.idles_happen (i := .wrote) rfl).trans
        (ih { x.happen .wrote with unread := x.unread ++ [o.command.line o.number] })
    · exact x.idles_happen rfl

theorem idles_hear (p : Peer π) (now : Nat) (lines : List (List Char)) (x : Exchange π) :
    x.client.Idles (hear p now lines x).client := by
  induction lines generalizing x with
  | nil => exact .refl
  | cons line lines ih =>
    unfold hear
    split
    · rcases p.hear x.peer now line with ⟨peer, deeds⟩
      exact (idles_foldl_doDeed deeds { x with peer, heard := line :: x.heard }).trans (ih _)
    · exact .refl

theorem idles_readAll (fuel : Nat) {c c' : Client} (h : c.Idles c') :
    c.Idles { c' with connection := c'.connection.readAll fuel } := by
  induction fuel generalizing c' with
  | zero => exact h
  | succ fuel ih =>
    unfold Connection.readAll
    cases hs : c'.connection.step? .read with
    | none => exact h
    | some k => exact ih (h.happened rfl hs)

theorem idles_receive (c : Client) : c.Idles { c with connection := c.connection.receive } := by
  have hfold : ∀ (ms : List Message) {c c' : Client}, c.Idles c' →
      c.Idles { c' with connection := ms.foldl (fun k _ => k.step .routed) c'.connection } := by
    intro ms
    induction ms with
    | nil => exact fun h => h
    | cons m ms ih => exact fun h => ih (h.step rfl)
  exact hfold _ (((idles_readAll _ .refl).step rfl).step rfl)

/-- Whatever a server does, the client gives no commands meanwhile. -/
theorem idles_settle (p : Peer π) (x : Exchange π) (now : Nat) :
    x.client.Idles (x.settle p now).client :=
  ((((x.idles_expire now).trans (idles_act p _ now)).trans (idles_write _ _)).trans
    (idles_hear p now _ _)).trans (idles_receive _)

end Exchange

end AnySpans.Server

namespace AnySpans.Check.Answers

open AnySpans.Passes AnySpans.Server

variable {π : Type} {p : Peer π} {a a' : Answers π} {c : Call}

theorem exchange_look (a : Answers π) (now : Nat) (c : Call) :
    (a.look now c).1.exchange = a.exchange := by
  unfold look
  split
  · rfl
  · rfl
  · split <;> rfl

theorem exchange_of_look (now : Nat) {r : Option Answer} (h : a.look now c = (a', r)) :
    a'.exchange = a.exchange := by rw [← exchange_look a now c, h]

theorem idles_forget (a : Answers π) (c : Call) :
    a.exchange.client.Idles (a.forget c).exchange.client := by
  unfold forget
  split
  · exact a.exchange.idles_abandon _
  · exact .refl

theorem idles_work {now : Nat} {calls : List Call} (h : a.work p now = some (a', calls)) :
    a.exchange.client.Idles a'.exchange.client := by
  unfold work at h
  split at h
  · cases h
  · cases h
    exact Exchange.idles_settle p a.exchange now

end AnySpans.Check.Answers
