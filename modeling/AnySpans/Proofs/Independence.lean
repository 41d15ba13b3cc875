import AnySpans.Proofs.Sessions
import Mathlib.Data.List.Forall2

/-!
# Documents do not influence each other

All documents of a registry share its counters, so the names of sessions and tokens depend on what
happens to the others.  Nothing else does: what clients are told about a document is what they would be
told if no other one existed (`Ledger.transcript_filter`).  Since the two runs give different names, a
client's wishes name a ticket by its document and its number among the document's tickets, which is
enough to ask for all that can be done with tickets that were handed out (`Ledger.exists_wishes`).
The two runs are kept together by a relation that forgets names (`Ledger.Twins`).
-/

namespace AnySpans.Documents

open AnySpans.Lines AnySpans.Text AnySpans.Syntax AnySpans.Signature

/-- The ticket of an operation. -/
def Operation.ticket? : Operation → Option Ticket
  | storeTree t _ _ | commit t _ _ => some t
  | _ => none

namespace Registry

/-- The ticket that an operation hands out. -/
def gives (r : Registry) : Operation → Option Ticket
  | .plan k visible d =>
    match r.plan k visible d with
    | .work t _ _ _ => some t
    | _ => none
  | _ => none

/-- Some operations, one after another, use only tickets that are given or that were handed out by
those before. -/
def UsesGiven : Registry → List Ticket → List Operation → Prop
  | _, _, [] => True
  | r, given, op :: ops => (∀ t, op.ticket? = some t → t ∈ given) ∧
    UsesGiven (r.perform op) (given ++ (r.gives op).toList) ops

end Registry

/-- A registry with the tickets it has handed out, each with its token, in order. -/
structure Ledger where
  registry : Registry
  issued : List (Ticket × Token)

namespace Ledger

/-! ### Wishes -/

/-- What a client wants of a registry.  A ticket is named by its number among those that were handed
out for the document. -/
inductive Wish where
  | open' (k : Key)
  | close (k : Key)
  | edit (k : Key)
  | setErrors (k : Key) (errors : List Range)
  | plan (k : Key) (visible : LineRange) (d : Dialect)
  | storeTree (k : Key) (number : Nat) (d : Dialect) (tree : Tree)
  | commit (k : Key) (number : Nat) (visible : LineRange) (hits : List Range)

namespace Wish

/-- The document a wish is about. -/
def key : Wish → Key
  | open' k | close k | edit k | setErrors k _ | plan k _ _ | storeTree k _ _ _ | commit k _ _ _ => k

/-- The operation a wish comes to, given the tickets of its document; none if it names no ticket. -/
def operation? (tickets : List (Ticket × Token)) : Wish → Option Operation
  | open' k => some (.open' k)
  | close k => some (.close k)
  | edit k => some (.edit k)
  | setErrors k errors => some (.setErrors k errors)
  | plan k visible d => some (.plan k visible d)
  | storeTree _ n d tree => tickets[n]?.map fun x => .storeTree x.1 d tree
  | commit _ n visible hits => tickets[n]?.map fun x => .commit x.1 visible hits

end Wish

/-- What a client is told at once; names of sessions and tokens mean nothing to it. -/
inductive Reply where
  | done
  | noTicket
  | wasOpen (isOpen : Bool)
  | edited (generation : Option Nat)
  | closed
  | cached
  | work (generation : Nat) (lines : IntervalSet) (tree : Option Tree)
  | committed (isCurrent : Bool)

/-- What a client is told of a plan. -/
def Reply.ofPlan : Plan → Reply
  | .closed => .closed
  | .cached => .cached
  | .work t lines _ tree => .work t.generation lines tree

/-- What can be seen of a document: its state, what is shown of it with and without what touches
errors, and of each of its tickets the generation, whether it is current and whether its token is
cancelled. -/
structure Sight where
  isOpen : Bool
  generation : Option Nat
  analysis : Option Analysis
  surfaced : Option (List Range)
  shown : Option (List Range)
  tickets : List (Nat × Bool × Bool)

/-- The ledger of the registry without documents. -/
def start : Ledger := ⟨.empty, []⟩

variable (l : Ledger)

/-- The tickets that were handed out for a document. -/
def ticketsOf (k : Key) : List (Ticket × Token) := l.issued.filter fun x => x.1.key == k

/-- The ticket that a wish gets. -/
def handsOut : Wish → Option (Ticket × Token)
  | .plan k visible d =>
    match l.registry.plan k visible d with
    | .work t _ token _ => some (t, token)
    | _ => none
  | _ => none

/-- The ledger after a wish. -/
def perform (e : Wish) : Ledger :=
  ⟨((e.operation? (l.ticketsOf e.key)).map l.registry.perform).getD l.registry,
    l.issued ++ (l.handsOut e).toList⟩

/-- What the client of a wish is told. -/
def reply : Wish → Reply
  | .open' _ => .done
  | .close k | .setErrors k _ => .wasOpen (l.registry.isOpen k)
  | .edit k => .edited ((l.registry.edit k).generation? k)
  | .plan k visible d => .ofPlan (l.registry.plan k visible d)
  | .storeTree k n _ _ => if n < (l.ticketsOf k).length then .done else .noTicket
  | .commit k n visible hits =>
    match (l.ticketsOf k)[n]? with
    | some x => .committed (l.registry.commit? x.1 visible hits).isSome
    | none => .noTicket

/-- What can be seen of a document. -/
def sight (k : Key) : Sight where
  isOpen := l.registry.isOpen k
  generation := l.registry.generation? k
  analysis := l.registry.analysis? k
  surfaced := l.registry.shown k true
  shown := l.registry.shown k false
  tickets := (l.ticketsOf k).map fun x =>
    (x.1.generation, l.registry.isCurrent x.1, l.registry.isCancelled x.2)

/-- The ledger after some wishes. -/
def run (es : List Wish) : Ledger := es.foldl perform l

/-- A wish, what its client is told, and what can then be seen of its document. -/
structure Entry where
  wish : Wish
  reply : Reply
  sight : Sight

/-- The entries of some wishes. -/
def transcript : Ledger → List Wish → List Entry
  | _, [] => []
  | l, e :: es => ⟨e, l.reply e, (l.perform e).sight e.key⟩ :: transcript (l.perform e) es

end Ledger

/-! ### Sessions without names -/

namespace Session

/-- A session without its names. -/
def anonymous (s : Session) : Session := { s with number := 0, token := 0 }

end Session

namespace Registry

variable {r r' : Registry} {k : Key}

/-- Two registries hold the same of a document but for the names of its session. -/
def SameBut (r r' : Registry) (k : Key) : Prop :=
  (r.session? k).map Session.anonymous = (r'.session? k).map Session.anonymous

namespace SameBut

/-- What does not depend on names is the same. -/
theorem map_eq {α : Type} {f : Session → α} (h : r.SameBut r' k) (hf : ∀ s, f s.anonymous = f s) :
    (r.session? k).map f = (r'.session? k).map f := by
  have := congrArg (Option.map f) h
  simpa only [Option.map_map, Function.comp_def, hf] using this

theorem bind_eq {α : Type} {f : Session → Option α} (h : r.SameBut r' k)
    (hf : ∀ s, f s.anonymous = f s) : (r.session? k).bind f = (r'.session? k).bind f := by
  have := congrArg (fun x => Option.bind x f) h
  simpa only [Option.bind_map, Function.comp_def, hf] using this

theorem isOpen_eq (h : r.SameBut r' k) : r.isOpen k = r'.isOpen k := by
  have := congrArg Option.isSome h
  rwa [Option.isSome_map, Option.isSome_map] at this

theorem isOpen_congr (h : r.SameBut r' k) {j : Key} (hj : (j == k) = true) :
    r.isOpen j = r'.isOpen j := by
  rw [isOpen, isOpen, session?_congr hj, session?_congr hj]
  exact h.isOpen_eq

theorem generation?_eq (h : r.SameBut r' k) : r.generation? k = r'.generation? k :=
  h.map_eq fun _ => rfl

theorem analysis?_eq (h : r.SameBut r' k) : r.analysis? k = r'.analysis? k :=
  h.bind_eq fun _ => rfl

theorem shown_eq (h : r.SameBut r' k) (b : Bool) : r.shown k b = r'.shown k b :=
  h.bind_eq fun _ => rfl

theorem reply_plan_eq (h : r.SameBut r' k) {j : Key} (hj : (j == k) = true) (visible : LineRange)
    (d : Dialect) :
    Ledger.Reply.ofPlan (r.plan j visible d) = Ledger.Reply.ofPlan (r'.plan j visible d) := by
  have hplan : ∀ r : Registry, Ledger.Reply.ofPlan (r.plan j visible d) =
      ((r.session? k).map fun s => if (s.uncovered visible).isEmpty then Ledger.Reply.cached
        else .work s.generation (s.uncovered visible) (s.tree? d)).getD .closed := by
    intro r
    rw [plan, session?_congr hj]
    cases r.session? k with
    | none => rfl
    | some s =>
      dsimp only
      split <;> simp [Ledger.Reply.ofPlan, *]
  rw [hplan, hplan, h.map_eq fun s => by rfl]

end SameBut

/-! ### Tickets of two registries -/

/-- Two tickets of a document, with their tokens, are of the same generation, and both hold or both
lapsed. -/
structure Paired (r r' : Registry) (k : Key) (x x' : Ticket × Token) : Prop where
  key : (x.1.key == k) = true
  key' : (x'.1.key == k) = true
  generation : x.1.generation = x'.1.generation
  fate : r.Holds x.1 x.2 ∧ r'.Holds x'.1 x'.2 ∨ r.Lapsed x.1 x.2 ∧ r'.Lapsed x'.1 x'.2

namespace Paired

variable {x x' : Ticket × Token}

theorem isCurrent_eq (h : r.Paired r' k x x') : r.isCurrent x.1 = r'.isCurrent x'.1 := by
  obtain ⟨hx, hx'⟩ | ⟨hx, hx'⟩ := h.fate
  · rw [hx.isCurrent, hx'.isCurrent]
  · rw [hx.not_current, hx'.not_current]

theorem isCancelled_eq (h : r.Paired r' k x x') (hr : r.Sound) (hr' : r'.Sound) :
    r.isCancelled x.2 = r'.isCancelled x'.2 := by
  obtain ⟨hx, hx'⟩ | ⟨hx, hx'⟩ := h.fate
  · rw [hx.not_cancelled hr, hx'.not_cancelled hr']
  · rw [hx.cancelled, hx'.cancelled]

/-- Tickets stay paired if a generation of their document ends in both registries or in none. -/
theorem change (h : r.Paired r' k x x') (hr : r.Sound) (hr' : r'.Sound) {j j' : Key} {b b' : Bool}
    {r₁ r₁' : Registry} (hc : r.Change j b r₁) (hc' : r'.Change j' b' r₁')
    (heq : (j == k && b) = (j' == k && b')) : r₁.Paired r₁' k x x' := by
  refine ⟨h.key, h.key', h.generation, ?_⟩
  obtain ⟨hx, hx'⟩ | ⟨hx, hx'⟩ := h.fate
  · have hstep := hx.change hr hc
    have hstep' := hx'.change hr' hc'
    rw [BEq.congr_right h.key] at hstep
    rw [BEq.congr_right h.key', ← heq] at hstep'
    split at hstep
    · rw [if_pos ‹_›] at hstep'
      exact .inr ⟨hstep, hstep'⟩
    · rw [if_neg ‹_›] at hstep'
      exact .inl ⟨hstep, hstep'⟩
  · exact .inr ⟨hx.change hc, hx'.change hc'⟩

end Paired

/-- The session of a document admits a ticket for it exactly if the ticket is current. -/
theorem map_admits_eq {t : Ticket} (hk : (t.key == k) = true) (f : Session → Session) :
    ((r.session? k).map fun s => if s.admits t then f s else s) =
      (r.session? k).map fun s => if r.isCurrent t then f s else s := by
  rw [← session?_congr hk]
  refine Option.map_congr fun s hs => ?_
  have : s.admits t = r.isCurrent t := by
    rw [Bool.eq_iff_iff, isCurrent_iff]
    constructor
    · exact fun ha => ⟨s, hs, ha⟩
    · rintro ⟨s', hs', ha⟩
      obtain rfl := Option.some.inj (hs.symm.trans hs')
      exact ha
  rw [this]

/-! ### Operations on two registries -/

/-- Two operations on a document are the same, but for paired tickets. -/
inductive Matches (r r' : Registry) (k : Key) : Operation → Operation → Prop
  | same {op : Operation} : (op.key == k) = true → op.ticket? = none → Matches r r' k op op
  | storeTree {x x' : Ticket × Token} {d : Dialect} {tree : Tree} : r.Paired r' k x x' →
    Matches r r' k (.storeTree x.1 d tree) (.storeTree x'.1 d tree)
  | commit {x x' : Ticket × Token} {visible : LineRange} {hits : List Range} :
    r.Paired r' k x x' → Matches r r' k (.commit x.1 visible hits) (.commit x'.1 visible hits)

namespace Matches

variable {op op' : Operation}

theorem key (h : r.Matches r' k op op') : (op.key == k) = true ∧ (op'.key == k) = true := by
  cases h with
  | same hkey _ => exact ⟨hkey, hkey⟩
  | storeTree hx => exact ⟨hx.key, hx.key'⟩
  | commit hx => exact ⟨hx.key, hx.key'⟩

theorem ends_eq (h : r.Matches r' k op op') (hs : r.SameBut r' k) : r.ends op = r'.ends op' := by
  cases h with
  | same hkey _ =>
    cases op with
    | close j => exact hs.isOpen_congr hkey
    | edit j => exact hs.isOpen_congr hkey
    | _ => rfl
  | _ => rfl

/-- Operations that match make the same of a document but for names. -/
theorem sameBut (h : r.Matches r' k op op') (hs : r.SameBut r' k) :
    (r.perform op).SameBut (r'.perform op') k := by
  have hmap : ∀ {f f' : Session → Session}, (∀ s, (f s.anonymous).anonymous = (f s).anonymous) →
      (∀ s, (f' s).anonymous = (f s).anonymous) →
      ((r.session? k).map f).map Session.anonymous =
        ((r'.session? k).map f').map Session.anonymous := by
    intro f f' hf hf'
    rw [Option.map_map, Option.map_map, hs.map_eq hf]
    exact Option.map_congr fun s _ => (hf' s).symm
  rw [SameBut, session?_perform_eq, session?_perform_eq, if_pos h.key.1, if_pos h.key.2]
  cases h with
  | same hkey hticket =>
    cases op with
    | open' j =>
      rw [SameBut] at hs
      cases hr : r.session? k <;> cases hr' : r'.session? k <;> rw [hr, hr'] at hs
      · rfl
      · cases hs
      · cases hs
      · exact hs
    | close j => rfl
    | edit j => exact hmap (fun _ => rfl) fun _ => rfl
    | setErrors j errors => exact hmap (fun _ => rfl) fun _ => rfl
    | plan j visible d => exact hs
    | storeTree t d tree => cases hticket
    | commit t visible hits => cases hticket
  | storeTree hx =>
    rw [effect, effect, map_admits_eq hx.key, map_admits_eq hx.key', ← hx.isCurrent_eq,
      ← hx.generation]
    refine hmap (fun s => ?_) fun s => ?_ <;> split <;> rfl
  | commit hx =>
    rw [effect, effect, map_admits_eq hx.key, map_admits_eq hx.key', ← hx.isCurrent_eq]
    refine hmap (fun s => ?_) fun s => ?_ <;> split <;> rfl

end Matches

end Registry

/-! ### Two ledgers -/

namespace Ledger

variable {l l' : Ledger} {k : Key} {e : Wish}

theorem ticketsOf_congr {j : Key} (h : (j == k) = true) : l.ticketsOf j = l.ticketsOf k :=
  List.filter_congr fun _ _ => BEq.congr_right h

theorem sight_congr {j : Key} (h : (j == k) = true) : l.sight j = l.sight k := by
  have hs : l.registry.session? j = l.registry.session? k := Registry.session?_congr h
  simp only [sight, ticketsOf_congr h, Registry.isOpen, Registry.generation?, Registry.analysis?,
    Registry.shown, hs]

theorem registry_perform {x : Option Operation} (h : e.operation? (l.ticketsOf e.key) = x) :
    (l.perform e).registry = (x.map l.registry.perform).getD l.registry := by
  rw [perform, h]

/-- Two ledgers have the same of a document but for names. -/
structure Twins (l l' : Ledger) (k : Key) : Prop where
  sound : l.registry.Sound
  sound' : l'.registry.Sound
  session : l.registry.SameBut l'.registry k
  tickets : List.Forall₂ (l.registry.Paired l'.registry k) (l.ticketsOf k) (l'.ticketsOf k)

theorem twins_start (k : Key) : start.Twins start k :=
  ⟨Registry.sound_empty, Registry.sound_empty, rfl, .nil⟩

/-- Each operation is what a wish comes to, if its ticket was handed out before. -/
theorem exists_wish (l : Ledger) (op : Operation)
    (h : ∀ t, op.ticket? = some t → ∃ token, (t, token) ∈ l.issued) :
    ∃ e : Wish, e.key = op.key ∧ e.operation? (l.ticketsOf e.key) = some op := by
  have hnumber : ∀ t : Ticket, (∃ token, (t, token) ∈ l.issued) →
      ∃ (n : Nat) (token : Token), (l.ticketsOf t.key)[n]? = some (t, token) := by
    rintro t ⟨token, ht⟩
    have hmem : (t, token) ∈ l.ticketsOf t.key := List.mem_filter.2 ⟨ht, BEq.rfl⟩
    obtain ⟨n, hn⟩ := List.mem_iff_getElem?.1 hmem
    exact ⟨n, token, hn⟩
  cases op with
  | open' k => exact ⟨.open' k, rfl, rfl⟩
  | close k => exact ⟨.close k, rfl, rfl⟩
  | edit k => exact ⟨.edit k, rfl, rfl⟩
  | setErrors k errors => exact ⟨.setErrors k errors, rfl, rfl⟩
  | plan k visible d => exact ⟨.plan k visible d, rfl, rfl⟩
  | storeTree t d tree =>
    obtain ⟨n, token, hn⟩ := hnumber t (h t rfl)
    exact ⟨.storeTree t.key n d tree, rfl, congrArg (Option.map _) hn⟩
  | commit t visible hits =>
    obtain ⟨n, token, hn⟩ := hnumber t (h t rfl)
    exact ⟨.commit t.key n visible hits, rfl, congrArg (Option.map _) hn⟩

/-- The ticket that is handed out by the operation of a wish. -/
theorem handsOut_fst {tickets : List (Ticket × Token)} {op : Operation}
    (h : e.operation? tickets = some op) : (l.handsOut e).map Prod.fst = l.registry.gives op := by
  cases e with
  | plan k visible d =>
    cases h
    rw [handsOut, Registry.gives]
    cases l.registry.plan k visible d <;> rfl
  | storeTree k n d tree =>
    obtain ⟨x, -, rfl⟩ := Option.map_eq_some_iff.1 h
    rfl
  | commit k n visible hits =>
    obtain ⟨x, -, rfl⟩ := Option.map_eq_some_iff.1 h
    rfl
  | _ =>
    cases h
    rfl

/-- Operations that use only tickets handed out before are what some wishes on the same documents come
to. -/
theorem exists_wishes (l : Ledger) (ops : List Operation)
    (h : l.registry.UsesGiven (l.issued.map Prod.fst) ops) :
    ∃ es : List Wish, (l.run es).registry = l.registry.run ops ∧
      es.map Wish.key = ops.map Operation.key := by
  induction ops generalizing l with
  | nil => exact ⟨[], rfl, rfl⟩
  | cons op ops ih =>
    obtain ⟨hticket, hrest⟩ := h
    obtain ⟨e, hkey, hop⟩ := l.exists_wish op fun t ht => by
      obtain ⟨x, hx, rfl⟩ := List.mem_map.1 (hticket t ht)
      exact ⟨x.2, hx⟩
    have hr : (l.perform e).registry = l.registry.perform op := registry_perform hop
    have hissued : (l.perform e).issued.map Prod.fst =
        l.issued.map Prod.fst ++ (l.registry.gives op).toList := by
      rw [perform, List.map_append, ← handsOut_fst hop, Option.toList_map]
    obtain ⟨es, hes, hkeys⟩ := ih (l.perform e) (by rwa [hr, hissued])
    refine ⟨e :: es, ?_, by rw [List.map_cons, List.map_cons, hkey, hkeys]⟩
    rw [hr] at hes
    exact hes

/-- The operation of a wish is about its document. -/
theorem key_of_operation? {op : Operation} (h : e.operation? (l.ticketsOf e.key) = some op) :
    (op.key == e.key) = true := by
  have hticket : ∀ {j : Key} {n : Nat} {x : Ticket × Token}, (l.ticketsOf j)[n]? = some x →
      (x.1.key == j) = true := fun hx => (List.mem_filter.1 (List.mem_of_getElem? hx)).2
  cases e with
  | storeTree j n d tree =>
    obtain ⟨x, hx, rfl⟩ := Option.map_eq_some_iff.1 h
    exact hticket hx
  | commit j n visible hits =>
    obtain ⟨x, hx, rfl⟩ := Option.map_eq_some_iff.1 h
    exact hticket hx
  | _ =>
    cases h
    exact BEq.rfl

/-- A ticket that is handed out holds, and is for the document of the wish. -/
theorem holds_of_handsOut {x : Ticket × Token} (h : l.handsOut e = some x) :
    (x.1.key == e.key) = true ∧ l.registry.Holds x.1 x.2 ∧ (l.perform e).registry = l.registry := by
  cases e with
  | plan j visible d =>
    rw [handsOut] at h
    split at h
    · rename_i hplan
      cases h
      obtain ⟨rfl, hholds⟩ := Registry.holds_of_plan hplan
      exact ⟨BEq.rfl, hholds, rfl⟩
    · cases h
  | _ => cases h

theorem ticketsOf_perform (l : Ledger) (e : Wish) (k : Key) : (l.perform e).ticketsOf k =
    l.ticketsOf k ++ if (e.key == k) = true then (l.handsOut e).toList else [] := by
  rw [ticketsOf, perform, List.filter_append, ticketsOf]
  congr 1
  cases h : l.handsOut e with
  | none => simp
  | some x =>
    have hkey := BEq.congr_left (c := k) (holds_of_handsOut h).1
    cases hk : e.key == k <;> simp [hk, hkey]

namespace Twins

/-- Wishes on another document change nothing of what the ledgers have in common. -/
theorem apart (h : l.Twins l' k) (hkey : (e.key == k) = false) : (l.perform e).Twins l' k := by
  have htickets : (l.perform e).ticketsOf k = l.ticketsOf k := by
    rw [ticketsOf_perform, hkey, if_neg Bool.false_ne_true, List.append_nil]
  cases hop : e.operation? (l.ticketsOf e.key) with
  | none =>
    have hr : (l.perform e).registry = l.registry := registry_perform hop
    refine ⟨hr ▸ h.sound, h.sound', hr ▸ h.session, ?_⟩
    rw [htickets, hr]
    exact h.tickets
  | some op =>
    have hr : (l.perform e).registry = l.registry.perform op := registry_perform hop
    have hop : (op.key == k) = false := (BEq.congr_left (key_of_operation? hop)).trans hkey
    have hc := l.registry.perform_change op
    refine ⟨hr ▸ h.sound.change hc, h.sound', ?_, ?_⟩
    · rw [hr, Registry.SameBut, hc.session?_of_ne hop]
      exact h.session
    · rw [htickets, hr]
      exact h.tickets.imp fun x x' hx => hx.change h.sound h.sound' hc (.same (k := k)) (by simp [hop])

/-- A number names paired tickets in the two ledgers, or none. -/
theorem ticket_cases (h : l.Twins l' k) (n : Nat) :
    ((l.ticketsOf k)[n]? = none ∧ (l'.ticketsOf k)[n]? = none) ∨
      ∃ x x', (l.ticketsOf k)[n]? = some x ∧ (l'.ticketsOf k)[n]? = some x' ∧
        l.registry.Paired l'.registry k x x' := by
  have hlength := h.tickets.length_eq
  by_cases hn : n < (l.ticketsOf k).length
  · have hn' : n < (l'.ticketsOf k).length := hlength ▸ hn
    exact .inr ⟨_, _, List.getElem?_eq_getElem hn, List.getElem?_eq_getElem hn',
      h.tickets.get hn hn'⟩
  · exact .inl ⟨List.getElem?_eq_none (Nat.not_lt.1 hn),
      List.getElem?_eq_none (hlength ▸ Nat.not_lt.1 hn)⟩

/-- A wish on the document comes to operations that match, or to none in both ledgers. -/
theorem operation?_cases (h : l.Twins l' k) (hkey : (e.key == k) = true) :
    (e.operation? (l.ticketsOf e.key) = none ∧ e.operation? (l'.ticketsOf e.key) = none) ∨
      ∃ op op', e.operation? (l.ticketsOf e.key) = some op ∧
        e.operation? (l'.ticketsOf e.key) = some op' ∧
        l.registry.Matches l'.registry k op op' := by
  rw [ticketsOf_congr hkey, ticketsOf_congr hkey]
  cases e with
  | storeTree j n d tree =>
    obtain ⟨hx, hx'⟩ | ⟨x, x', hx, hx', hpaired⟩ := h.ticket_cases n
    · simp [Wish.operation?, hx, hx']
    · refine .inr ⟨.storeTree x.1 d tree, .storeTree x'.1 d tree, ?_, ?_, .storeTree hpaired⟩
      · exact congrArg (Option.map _) hx
      · exact congrArg (Option.map _) hx'
  | commit j n visible hits =>
    obtain ⟨hx, hx'⟩ | ⟨x, x', hx, hx', hpaired⟩ := h.ticket_cases n
    · simp [Wish.operation?, hx, hx']
    · refine .inr ⟨.commit x.1 visible hits, .commit x'.1 visible hits, ?_, ?_, .commit hpaired⟩
      · exact congrArg (Option.map _) hx
      · exact congrArg (Option.map _) hx'
  | _ => exact .inr ⟨_, _, rfl, rfl, .same hkey rfl⟩

/-- The two ledgers hand out paired tickets, or none. -/
theorem handsOut_paired (h : l.Twins l' k) (hkey : (e.key == k) = true) :
    List.Forall₂ ((l.perform e).registry.Paired (l'.perform e).registry k)
      (l.handsOut e).toList (l'.handsOut e).toList := by
  cases e with
  | plan j visible d =>
    have hj : (j == k) = true := hkey
    have hreply := h.session.reply_plan_eq hj visible d
    rw [handsOut, handsOut]
    cases hp : l.registry.plan j visible d <;> cases hp' : l'.registry.plan j visible d <;>
      rw [hp, hp'] at hreply <;> simp only [Reply.ofPlan, reduceCtorEq, Reply.work.injEq] at hreply
    case work.work t lines token tree t' lines' token' tree' =>
      obtain ⟨ht, hholds⟩ := Registry.holds_of_plan hp
      obtain ⟨ht', hholds'⟩ := Registry.holds_of_plan hp'
      exact .cons ⟨ht ▸ hj, ht' ▸ hj, hreply.1, .inl ⟨hholds, hholds'⟩⟩ .nil
    all_goals exact .nil
  | _ => exact .nil

/-- A wish on the document does the same to both ledgers. -/
theorem perform (h : l.Twins l' k) (hkey : (e.key == k) = true) :
    (l.perform e).Twins (l'.perform e) k := by
  have htickets : ∀ l : Ledger, (l.perform e).ticketsOf k = l.ticketsOf k ++ (l.handsOut e).toList :=
    fun l => by rw [ticketsOf_perform, if_pos hkey]
  have hnew := h.handsOut_paired hkey
  obtain ⟨hop, hop'⟩ | ⟨op, op', hop, hop', hmatch⟩ := h.operation?_cases hkey
  · have hr : (l.perform e).registry = l.registry := registry_perform hop
    have hr' : (l'.perform e).registry = l'.registry := registry_perform hop'
    rw [hr, hr'] at hnew
    refine ⟨hr ▸ h.sound, hr' ▸ h.sound', ?_, ?_⟩
    · rw [hr, hr']
      exact h.session
    · rw [htickets, htickets, hr, hr']
      exact List.rel_append h.tickets hnew
  · have hr : (l.perform e).registry = l.registry.perform op := registry_perform hop
    have hr' : (l'.perform e).registry = l'.registry.perform op' := registry_perform hop'
    have hc := l.registry.perform_change op
    have hc' := l'.registry.perform_change op'
    rw [hr, hr'] at hnew
    refine ⟨hr ▸ h.sound.change hc, hr' ▸ h.sound'.change hc', ?_, ?_⟩
    · rw [hr, hr']
      exact hmatch.sameBut h.session
    · rw [htickets, htickets, hr, hr']
      refine List.rel_append (h.tickets.imp fun x x' hx => ?_) hnew
      refine hx.change h.sound h.sound' hc hc' ?_
      rw [hmatch.key.1, hmatch.key.2, hmatch.ends_eq h.session]

/-- The clients of both ledgers are told the same. -/
theorem reply_eq (h : l.Twins l' k) (hkey : (e.key == k) = true) : l.reply e = l'.reply e := by
  cases e with
  | open' j => rfl
  | close j => exact congrArg Reply.wasOpen (h.session.isOpen_congr hkey)
  | edit j =>
    have hmatch : l.registry.Matches l'.registry k (.edit j) (.edit j) := .same hkey rfl
    have hg := (hmatch.sameBut h.session).generation?_eq
    rw [Registry.generation?, Registry.generation?, ← Registry.session?_congr hkey,
      ← Registry.session?_congr hkey] at hg
    exact congrArg Reply.edited hg
  | setErrors j errors => exact congrArg Reply.wasOpen (h.session.isOpen_congr hkey)
  | plan j visible d => exact h.session.reply_plan_eq hkey visible d
  | storeTree j n d tree =>
    have hj : (j == k) = true := hkey
    rw [reply, reply, ticketsOf_congr hj, ticketsOf_congr hj, h.tickets.length_eq]
  | commit j n visible hits =>
    have hj : (j == k) = true := hkey
    rw [reply, reply, ticketsOf_congr hj, ticketsOf_congr hj]
    obtain ⟨hx, hx'⟩ | ⟨x, x', hx, hx', hpaired⟩ := h.ticket_cases n
    · rw [hx, hx']
    · rw [hx, hx']
      simp only [Registry.commit?_isSome, hpaired.isCurrent_eq]

/-- The same can be seen of the document in both ledgers. -/
theorem sight_eq (h : l.Twins l' k) : l.sight k = l'.sight k := by
  have htickets : (l.sight k).tickets = (l'.sight k).tickets := by
    rw [← List.forall₂_eq_eq_eq]
    refine List.forall₂_map_left_iff.2 (List.forall₂_map_right_iff.2 (h.tickets.imp ?_))
    intro x x' hx
    rw [hx.generation, hx.isCurrent_eq, hx.isCancelled_eq h.sound h.sound']
  rw [sight] at htickets ⊢
  rw [sight] at htickets ⊢
  simp only [Sight.mk.injEq]
  exact ⟨h.session.isOpen_eq, h.session.generation?_eq, h.session.analysis?_eq,
    h.session.shown_eq true, h.session.shown_eq false, htickets⟩

/-- The entries of a document in one ledger are all those of the other, if that has only the wishes on
the document. -/
theorem transcript_eq (h : l.Twins l' k) (es : List Wish) :
    (l.transcript es).filter (fun x => x.wish.key == k) =
        l'.transcript (es.filter fun e => e.key == k) ∧
      (l.run es).Twins (l'.run (es.filter fun e => e.key == k)) k := by
  induction es generalizing l l' with
  | nil => exact ⟨rfl, h⟩
  | cons e es ih =>
    cases hkey : e.key == k with
    | false =>
      obtain ⟨htranscript, htwins⟩ := ih (h.apart hkey)
      rw [transcript, List.filter_cons_of_neg (by simp [hkey]),
        List.filter_cons_of_neg (by simp [hkey])]
      exact ⟨htranscript, htwins⟩
    | true =>
      have hnext := h.perform hkey
      obtain ⟨htranscript, htwins⟩ := ih hnext
      have hsight := hnext.sight_eq
      rw [← sight_congr hkey, ← sight_congr hkey] at hsight
      rw [transcript, List.filter_cons_of_pos (by simp [hkey]),
        List.filter_cons_of_pos (by simp [hkey]), transcript, htranscript, h.reply_eq hkey, hsight]
      exact ⟨rfl, htwins⟩

end Twins

/-- What the clients of a document are told, and what can be seen of it after each of their wishes, is
what it would be if there were no wishes on other documents; and so is what can be seen of it at any
time. -/
theorem transcript_filter (k : Key) (es : List Wish) :
    (start.transcript es).filter (fun x => x.wish.key == k) =
        start.transcript (es.filter fun e => e.key == k) ∧
      (start.run es).sight k = (start.run (es.filter fun e => e.key == k)).sight k := by
  obtain ⟨htranscript, htwins⟩ := (twins_start k).transcript_eq es
  exact ⟨htranscript, htwins.sight_eq⟩

/-- The names do depend on other documents: here on one that is open already. -/
example :
    let a : Key := ⟨"/a.ts"⟩
    let b : Key := ⟨"/b.ts"⟩
    ((start.run [.open' a, .open' b]).registry.session? b).map Session.number = some 2 ∧
      ((start.run [.open' b]).registry.session? b).map Session.number = some 1 := by
  decide

end Ledger

end AnySpans.Documents
