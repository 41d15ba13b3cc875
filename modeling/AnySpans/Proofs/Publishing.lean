import AnySpans.Proofs.Requests
import AnySpans.Proofs.Tables

/-!
# Which text is published

A pass carries the text its document had when the pass was called for, but it gets its ticket only
when it begins; from then on the ticket stops being current when another text comes
(`Service.Traced`).  If the text changes in between, the results of the old text are kept as those of
the new one (`Service.old_text_published`).  There is no other way: what a pass keeps is of the present
text exactly if the text is the same at its beginning as at its call (`Service.published_text_iff`).
-/

namespace AnySpans.Documents.Registry

variable {r : Registry} {j k : Key}

/-- An edit opens no document. -/
theorem isOpen_of_edit (h : (r.edit k).isOpen j = true) : r.isOpen j = true := by
  unfold edit at h
  split at h
  · exact h
  · rename_i s hs
    obtain ⟨s', hs'⟩ := isOpen_iff.1 h
    obtain ⟨hkey, -⟩ | hs' := session?_of_put hs'
    · exact isOpen_iff.2 ⟨s, session?_congr hkey ▸ hs⟩
    · exact isOpen_iff.2 ⟨s', hs'⟩

end AnySpans.Documents.Registry

namespace AnySpans.Passes

open AnySpans.Documents AnySpans.Settings AnySpans.Syntax

/-! ### What a host tells -/

/-- The request with the text of a document that a notice carries if it opens or changes one. -/
def Notice.content? : Notice → Option Request
  | .opened r | .changed r => some r
  | _ => none

/-- The text of a document by the last notice that opened or changed it. -/
def textOf? (j : Key) (ns : List Notice) : Option String :=
  (lastBy? Notice.content? j ns).map fun r => r.document.text

/-- Whether a document is open from now on, if a notice tells. -/
def Notice.opens? (j : Key) : Notice → Option Bool
  | .opened r => if r.key == j then some true else none
  | .closed k => if k == j then some false else none
  | _ => none

/-- Whether a document is open after some notices. -/
def isOpenAfter (j : Key) (ns : List Notice) : Bool :=
  ((ns.filterMap (Notice.opens? j)).getLast?).getD false

/-- A notice fits those before it: a document is opened only while it is not open, and a request
without a new text carries the present one. -/
def Notice.Fits (before : List Notice) : Notice → Prop
  | .opened r => isOpenAfter r.key before = false
  | .scrolled r | .focused r => textOf? r.key before = some r.document.text
  | _ => True

/-- Each notice fits those before it. -/
def Orderly (ns : List Notice) : Prop :=
  ∀ before n after, ns = before ++ n :: after → n.Fits before

section

variable {j : Key} {ns ns' : List Notice} {n : Notice} {r : Request}

theorem textOf?_of_content (hn : n.content? = some r) (hr : (r.key == j) = true) :
    textOf? j (ns ++ [n]) = some r.document.text := by
  rw [textOf?, lastBy?_of_request hn hr, Option.map_some]

theorem textOf?_of_other (hn : ∀ r, n.content? = some r → (r.key == j) = false) :
    textOf? j (ns ++ [n]) = textOf? j ns := by
  rw [textOf?, lastBy?_of_other hn, textOf?]

theorem textOf?_congr {k : Key} (h : (j == k) = true) : textOf? j ns = textOf? k ns := by
  have hkey : ∀ r : Request, (r.key == j) = (r.key == k) := fun r => BEq.congr_right h
  simp only [textOf?, lastBy?, hkey]

theorem isOpenAfter_append {b : Bool} (h : n.opens? j = some b) :
    isOpenAfter j (ns ++ [n]) = b := by
  have : [n].filterMap (Notice.opens? j) = [b] := by simp [h]
  rw [isOpenAfter, List.filterMap_append, this, List.getLast?_append_of_ne_nil _ (by simp)]
  rfl

theorem isOpenAfter_append_none (h : n.opens? j = none) :
    isOpenAfter j (ns ++ [n]) = isOpenAfter j ns := by
  have : [n].filterMap (Notice.opens? j) = [] := by simp [h]
  rw [isOpenAfter, List.filterMap_append, this, List.append_nil, isOpenAfter]

theorem orderly_nil : Orderly [] := fun before n after h => by cases before <;> cases h

theorem Orderly.append (h : Orderly ns) (hn : n.Fits ns) : Orderly (ns ++ [n]) := by
  intro before m after hns
  obtain rfl | ⟨after', m', rfl⟩ := after.eq_nil_or_concat
  · obtain ⟨rfl, hm⟩ := List.append_inj' hns rfl
    cases hm
    exact hn
  · rw [List.concat_eq_append, ← List.cons_append, ← List.append_assoc] at hns
    exact h before m after' (List.append_inj' hns rfl).1

theorem Orderly.left (h : Orderly (ns ++ ns')) : Orderly ns := fun before n after hns =>
  h before n (after ++ ns') (by rw [hns, List.append_assoc, List.cons_append])

end

/-! ### Tables of requests -/

/-- The requests in a table are those of their documents and carry the present texts. -/
structure UpToDate {β : Type} (f : β → Request) (t : Table β) (ns : List Notice) : Prop where
  distinct : t.Distinct
  key_eq : ∀ j b, t.get? j = some b → ((f b).key == j) = true
  present : ∀ j b, t.get? j = some b → textOf? j ns = some (f b).document.text

namespace UpToDate

variable {β : Type} {f : β → Request} {t : Table β} {ns ns' : List Notice}

theorem empty : UpToDate f (∅ : Table β) ns where
  distinct := Table.distinct_empty
  key_eq _ _ h := by cases h
  present _ _ h := by cases h

/-- A table stays up to date if a request with the new text of its document is put in. -/
theorem put (h : UpToDate f t ns) {b : β} (hb : textOf? (f b).key ns' = some (f b).document.text)
    (hother : ∀ j, ((f b).key == j) = false → textOf? j ns' = textOf? j ns) :
    UpToDate f (t.put (f b).key b) ns' := by
  refine ⟨h.distinct.put _ b, fun j b' hb' => ?_, fun j b' hb' => ?_⟩ <;>
    rw [Table.get?_put] at hb' <;> split at hb'
  · cases hb'
    assumption
  · exact h.key_eq j b' hb'
  · rename_i hkey
    cases hb'
    exact (textOf?_congr hkey).symm.trans hb
  · rename_i hkey
    exact (hother j (Bool.eq_false_iff.2 hkey)).trans (h.present j b' hb')

theorem filter (h : UpToDate f t ns) (p : Key × β → Bool) :
    UpToDate f ⟨t.rows.filter p⟩ ns where
  distinct := h.distinct.filter p
  key_eq j b hb := h.key_eq j b (h.distinct.get?_filter hb)
  present j b hb := h.present j b (h.distinct.get?_filter hb)

theorem congr (h : UpToDate f t ns) (hns : ∀ j, textOf? j ns' = textOf? j ns) :
    UpToDate f t ns' where
  distinct := h.distinct
  key_eq := h.key_eq
  present j b hb := (hns j).trans (h.present j b hb)

theorem of_mem (h : UpToDate f t ns) {b : β} (hb : b ∈ t.values) :
    textOf? (f b).key ns = some (f b).document.text := by
  obtain ⟨row, hrow, rfl⟩ := List.mem_map.1 hb
  have hget := h.distinct.get?_of_mem hrow
  exact (textOf?_congr (h.key_eq _ _ hget)).trans (h.present _ _ hget)

end UpToDate

/-! ### The desk -/

/-- The requests at the desk are up to date. -/
structure Desk.Knows (d : Desk) (ns : List Notice) : Prop where
  latest : UpToDate id d.latest ns
  pending : UpToDate Pending.request d.debouncer.pending ns

namespace Desk.Knows

variable {d : Desk} {ns ns' : List Notice} {r : Request} {n : Notice}

theorem congr (h : d.Knows ns) (hns : ∀ j, textOf? j ns' = textOf? j ns) : d.Knows ns' :=
  ⟨h.latest.congr hns, h.pending.congr hns⟩

theorem take (h : d.Knows ns) (now : Nat) (hr : textOf? r.key ns' = some r.document.text)
    (hother : ∀ j, (r.key == j) = false → textOf? j ns' = textOf? j ns) :
    (d.take r now).Knows ns' :=
  ⟨h.latest.put (b := r) hr hother, h.pending.put (b := ⟨r, now⟩) hr hother⟩

/-- A request that brings the text of its document is taken. -/
theorem take_content (h : d.Knows ns) (now : Nat) (hn : n.content? = some r) :
    (d.take r now).Knows (ns ++ [n]) := by
  refine h.take now (textOf?_of_content hn BEq.rfl) fun j hj => textOf?_of_other fun r' hr' => ?_
  rw [hn] at hr'
  cases hr'
  exact hj

theorem cancel_all (h : d.Knows ns) (delay : Nat) (ks : List Key) :
    UpToDate Pending.request (ks.foldl .cancel (d.debouncer.setDelay delay)).pending ns := by
  have hgo : ∀ (ks : List Key) (b : Debouncer), UpToDate Pending.request b.pending ns →
      UpToDate Pending.request (ks.foldl .cancel b).pending ns := by
    intro ks
    induction ks with
    | nil => exact fun _ hb => hb
    | cons k ks ih => exact fun b hb => ih (b.cancel k) (hb.filter _)
  exact hgo ks _ h.pending

/-- Handling a notice that fits those before keeps the desk up to date. -/
theorem handle (h : d.Knows ns) (now : Nat) (hn : n.Fits ns) :
    (d.handle now n).1.Knows (ns ++ [n]) := by
  have hsame : n.content? = none → ∀ j, textOf? j (ns ++ [n]) = textOf? j ns := by
    intro hnone j
    refine textOf?_of_other fun r hr => ?_
    rw [hnone] at hr
    cases hr
  cases n with
  | opened r => exact h.take_content now rfl
  | changed r => exact h.take_content now rfl
  | scrolled r => exact h.take now ((hsame rfl r.key).trans hn) fun j _ => hsame rfl j
  | focused r => exact h.take now ((hsame rfl r.key).trans hn) fun j _ => hsame rfl j
  | closed k => exact congr ⟨h.latest.filter _, h.pending.filter _⟩ (hsame rfl)
  | diagnosed k ranges => exact h.congr (hsame rfl)
  | configured c => exact congr ⟨h.latest, h.cancel_all c.debounce _⟩ (hsame rfl)

theorem release (h : d.Knows ns) (now : Nat) : (d.release now).1.Knows ns :=
  ⟨h.latest, h.pending.filter _⟩

/-- A pass that new settings call for is for the present text. -/
theorem present_of_handle (h : d.Knows ns) (now : Nat)
    (hr : .spawned r ∈ (d.handle now n).2) : textOf? r.key (ns ++ [n]) = some r.document.text := by
  cases n with
  | configured c =>
    have hr : r ∈ d.latest.values := by simpa [Desk.handle] using hr
    exact (textOf?_of_other fun r hr => by cases hr).trans (h.latest.of_mem hr)
  | _ => simp [Desk.handle] at hr

/-- A pass that is due is for the present text. -/
theorem present_of_release (h : d.Knows ns) (now : Nat)
    (hr : .spawned r ∈ (d.release now).2) : textOf? r.key ns = some r.document.text := by
  obtain ⟨r', hdue, hr'⟩ := List.mem_map.1 hr
  cases hr'
  obtain ⟨p, hp, rfl⟩ := List.mem_map.1 hdue
  exact h.pending.of_mem (List.mem_filter.1 hp).1

end Desk.Knows

/-! ### Handled notices -/

def Turn.isHandled : Turn → Bool
  | .handled => true
  | _ => false

/-- The notices that are handled in some turns of a service that has none to begin with. -/
def handledNotices (ts : List Turn) : List Notice :=
  (notices ts).take (ts.countP Turn.isHandled)

/-- After some turns a queue holds the notices that were not handled. -/
def Queued (queue : List Notice) (ts : List Turn) : Prop :=
  ∃ handled, notices ts = handled ++ queue ∧ handled.length = ts.countP Turn.isHandled

section

variable {queue rest handled : List Notice} {n : Notice} {ts : List Turn} {t : Turn}

theorem handledNotices_eq (h : notices ts = handled ++ queue)
    (hlength : handled.length = ts.countP Turn.isHandled) : handledNotices ts = handled := by
  rw [handledNotices, h, List.take_left' hlength]

theorem Queued.notices_eq (h : Queued queue ts) : notices ts = handledNotices ts ++ queue := by
  obtain ⟨handled, hns, hlength⟩ := h
  rw [handledNotices_eq hns hlength, hns]

theorem notices_append (ts : List Turn) (t : Turn) :
    notices (ts ++ [t]) = notices ts ++ notices [t] := List.filterMap_append

/-- The first notice in the queue is the next to be handled. -/
theorem Queued.next (h : Queued queue ts) (hqueue : queue = n :: rest) :
    Queued rest (ts ++ [.handled]) ∧
      handledNotices (ts ++ [.handled]) = handledNotices ts ++ [n] := by
  obtain ⟨handled, hns, hlength⟩ := h
  have hns' : notices (ts ++ [.handled]) = handled ++ [n] ++ rest := by
    have hnone : notices [.handled] = [] := rfl
    rw [notices_append, hns, hqueue, hnone, List.append_nil, List.append_assoc,
      List.singleton_append]
  have hlength' : (handled ++ [n]).length = (ts ++ [Turn.handled]).countP Turn.isHandled := by
    rw [List.length_append, List.countP_append, hlength]
    rfl
  refine ⟨⟨_, hns', hlength'⟩, ?_⟩
  rw [handledNotices_eq hns' hlength', handledNotices_eq hns hlength]

theorem Queued.other (h : Queued queue ts) (ht : t.isHandled = false) :
    Queued (queue ++ notices [t]) (ts ++ [t]) ∧ handledNotices (ts ++ [t]) = handledNotices ts := by
  obtain ⟨handled, hns, hlength⟩ := h
  have hns' : notices (ts ++ [t]) = handled ++ (queue ++ notices [t]) := by
    rw [notices_append, hns, List.append_assoc]
  have hlength' : handled.length = (ts ++ [t]).countP Turn.isHandled := by
    rw [List.countP_append, hlength, List.countP_singleton, ht]
    rfl
  refine ⟨⟨_, hns', hlength'⟩, ?_⟩
  rw [handledNotices_eq hns' hlength', handledNotices_eq hns hlength]

theorem Queued.same (h : Queued queue ts) (ht : t.isHandled = false) (hn : notices [t] = []) :
    Queued queue (ts ++ [t]) ∧ handledNotices (ts ++ [t]) = handledNotices ts := by
  have := h.other ht
  rwa [hn, List.append_nil] at this

end

/-! ### Open documents and tickets -/

namespace World

variable {w w' : World} {es : List Event} {p : Nat} {k : Work} {ns : List Notice}

/-- A document that is open after a notice was handled is open by what was told. -/
theorem isOpenAfter_of_handle (hw : w.Ordered)
    (h : ∀ j, w.analyzer.registry.isOpen j = true → isOpenAfter j ns = true) (d : Desk) (now : Nat)
    (n : Notice) {j : Key}
    (hj : ((d.handle now n).2.foldl step w).analyzer.registry.isOpen j = true) :
    isOpenAfter j (ns ++ [n]) = true := by
  have hother : n.opens? j = none → (∀ e ∈ (d.handle now n).2, e.disturbs j = false) →
      isOpenAfter j (ns ++ [n]) = true := fun hn hes =>
    (isOpenAfter_append_none hn).trans (h j ((undisturbed_foldl hw hes).1 hj))
  cases n with
  | opened r =>
    cases hkey : r.key == j with
    | true => exact isOpenAfter_append (by simp [Notice.opens?, hkey])
    | false =>
      refine hother (by simp [Notice.opens?, hkey]) ?_
      simp [Desk.handle, Event.disturbs, hkey]
  | changed r =>
    exact (isOpenAfter_append_none rfl).trans (h j (Registry.isOpen_of_edit hj))
  | scrolled r => exact hother rfl (by simp [Desk.handle])
  | focused r => exact hother rfl (by simp [Desk.handle])
  | closed i =>
    cases hkey : i == j with
    | true =>
      obtain ⟨s, hs⟩ := Registry.isOpen_iff.1 hj
      cases (w.analyzer.registry.session?_close hkey).symm.trans hs
    | false =>
      refine hother (by simp [Notice.opens?, hkey]) ?_
      simp [Desk.handle, Event.disturbs, hkey]
  | diagnosed i ranges => exact hother rfl (by simp [Desk.handle, Event.disturbs])
  | configured c => exact hother rfl (by simp [Desk.handle, Event.disturbs])

/-- A ticket that is current after an edit is for another document. -/
theorem not_edited_of_isCurrent {i : Key} (h : w.TicketOf k) (hw : w.analyzer.registry.Sound)
    (hc : (w.analyzer.registry.edit i).isCurrent k.ticket = true) : (i == k.ticket.key) = false := by
  refine Bool.eq_false_iff.2 fun hkey => ?_
  have hchange := w.analyzer.registry.edit_change i
  obtain hh | hl := h.2
  · have hopen : w.analyzer.registry.isOpen i = true := by
      obtain ⟨s, hs, -⟩ := hh
      exact Registry.isOpen_iff.2 ⟨s, (Registry.session?_congr hkey).trans hs⟩
    have := hh.change hw hchange
    rw [hopen, hkey, Bool.and_true, if_pos rfl] at this
    rw [this.not_current] at hc
    cases hc
  · rw [(hl.change hchange).not_current] at hc
    cases hc

/-- What happens besides the steps of passes leaves the passes that ask alone, and no ticket becomes
current by it. -/
theorem asking_of_foldl (hw : w.Ordered) (hes : ∀ e ∈ es, e.isAdvance = false)
    (hk : (es.foldl step w).passes[p]? = some (.asking k)) :
    w.passes[p]? = some (.asking k) ∧
      ((es.foldl step w).analyzer.registry.isCurrent k.ticket = true →
        w.analyzer.registry.isCurrent k.ticket = true) := by
  induction es generalizing w with
  | nil => exact ⟨hk, id⟩
  | cons e es ih =>
    have hrest : ∀ e ∈ es, e.isAdvance = false := fun e he => hes e (List.mem_cons_of_mem _ he)
    have he := hes e List.mem_cons_self
    obtain hsame | hstep := w.step_cases e
    · rw [List.foldl_cons, hsame] at hk ⊢
      exact ih hw hrest hk
    · obtain ⟨hk, hcurrent⟩ := ih (hw.step hstep) hrest hk
      obtain ⟨rfl, -⟩ | ⟨k', hk', hsame, hmoves⟩ := hstep.asking_before hk
      · cases he
      · have hfan : k.fan = k'.fan := by
          generalize k.fan = fan at hmoves
          cases hmoves with
          | same => rfl
          | _ => cases he
        rw [hfan] at hsame
        have hsame : k = k' := hsame
        rw [← hsame] at hk'
        exact ⟨hk', fun hc => (hw.tickets p k hk').isCurrent_of_step hstep (hcurrent hc)⟩

theorem ready_of_foldl {r : Request} (hr : (es.foldl step w).passes[p]? = some (.ready r)) :
    w.passes[p]? = some (.ready r) ∨ .spawned r ∈ es ∧ w.passes[p]? = none := by
  induction es generalizing w with
  | nil => exact .inl hr
  | cons e es ih =>
    obtain hsame | hstep := w.step_cases e
    · rw [List.foldl_cons, hsame] at hr
      obtain hr | ⟨hmem, hnone⟩ := ih hr
      · exact .inl hr
      · exact .inr ⟨List.mem_cons_of_mem e hmem, hnone⟩
    · obtain hr | ⟨hmem, hnone⟩ := ih hr
      · obtain hr | ⟨rfl, hnone⟩ := hstep.ready_before hr
        · exact .inl hr
        · exact .inr ⟨List.mem_cons_self, hnone⟩
      · refine .inr ⟨List.mem_cons_of_mem e hmem, ?_⟩
        cases hs : w.passes[p]? with
        | none => rfl
        | some s =>
          obtain ⟨s', hs', -⟩ := hstep.becomes hs
          rw [hnone] at hs'
          cases hs'

end World

namespace Service

variable {start s s' : Service} {ts : List Turn} {t : Turn} {p : Nat} {r : Request} {k : Work}

/-! ### What a service knows -/

/-- A service after some turns knows what was handled: the documents that are open and the texts of
the requests at its desk. -/
structure Informed (s : Service) (ts : List Turn) : Prop where
  ordered : s.world.Ordered
  queued : Queued s.queue ts
  isOpen : ∀ j, s.world.analyzer.registry.isOpen j = true →
    isOpenAfter j (handledNotices ts) = true
  desk : s.desk.Knows (handledNotices ts)

theorem informed_reading (R : Readers) (c : Config) : (reading R c).Informed [] where
  ordered := World.ordered_reading R c
  queued := ⟨[], rfl, rfl⟩
  isOpen _ h := by cases h
  desk := ⟨.empty, .empty⟩

/-- The notice that is handled next fits those before it. -/
theorem Informed.fits {n : Notice} {queue : List Notice} (h : s.Informed ts)
    (hns : Orderly (notices ts)) (hqueue : s.queue = n :: queue) : n.Fits (handledNotices ts) :=
  hns _ n queue (hqueue ▸ h.queued.notices_eq)

theorem Informed.step (h : s.Informed ts) (hns : Orderly (notices ts)) (hs : s.Steps t s') :
    s'.Informed (ts ++ [t]) := by
  cases hs with
  | told n =>
    obtain ⟨hqueued, hsame⟩ := h.queued.other (t := .told n) rfl
    exact ⟨h.ordered, hqueued, hsame ▸ h.isOpen, hsame ▸ h.desk⟩
  | @handled n queue hqueue =>
    have hfits := h.fits hns hqueue
    obtain ⟨hordered, hqueued, hopen, hdesk⟩ := h
    obtain ⟨hqueued, hnext⟩ := hqueued.next hqueue
    refine ⟨hordered.foldl _, hqueued, fun j hj => ?_, ?_⟩ <;> rw [hnext]
    · exact World.isOpenAfter_of_handle hordered hopen s.desk s.now n hj
    · exact hdesk.handle s.now hfits
  | released =>
    obtain ⟨hqueued, hsame⟩ := h.queued.same (t := .released) rfl rfl
    have hcalm : ∀ j, ∀ e ∈ (s.desk.release s.now).2, e.disturbs j = false := by
      intro j e he
      obtain ⟨r, -, rfl⟩ := List.mem_map.1 he
      rfl
    refine ⟨h.ordered.foldl _, hqueued, fun j hj => ?_, ?_⟩ <;> rw [hsame]
    · exact h.isOpen j ((World.undisturbed_foldl h.ordered (hcalm j)).1 hj)
    · exact h.desk.release s.now
  | elapsed duration =>
    obtain ⟨hqueued, hsame⟩ := h.queued.same (t := .elapsed duration) rfl rfl
    exact ⟨h.ordered, hqueued, hsame ▸ h.isOpen, hsame ▸ h.desk⟩
  | @advanced e w hadvance hstep =>
    obtain ⟨hqueued, hsame⟩ := h.queued.same (t := .advanced e) rfl rfl
    have hsteps := World.steps_of_step? hstep
    refine ⟨h.ordered.step hsteps, hqueued, fun j hj => ?_, hsame ▸ h.desk⟩
    obtain ⟨session, hsession⟩ := Registry.isOpen_iff.1 hj
    obtain ⟨session₀, hsession₀, -⟩ := hsteps.session_before (e.disturbs_of_isAdvance hadvance j) hsession
    rw [hsame]
    exact h.isOpen j (Registry.isOpen_iff.2 ⟨session₀, hsession₀⟩)

theorem Run.informed {R : Readers} {c : Config} (h : Run (.reading R c) ts s)
    (hns : Orderly (notices ts)) : s.Informed ts := by
  induction h with
  | start => exact informed_reading R c
  | step _ hs ih =>
    rw [notices_append] at hns
    exact (ih hns.left).step hns.left (steps_of_step? hs)

/-! ### Passes before a turn -/

/-- A pass that has not begun after a turn had not begun before it, or is called for by it with the
present text. -/
theorem Informed.ready_before (h : s.Informed ts) (hs : s.Steps t s')
    (hr : s'.world.passes[p]? = some (.ready r)) : s.world.passes[p]? = some (.ready r) ∨
      s.world.passes[p]? = none ∧
        textOf? r.key (handledNotices (ts ++ [t])) = some r.document.text := by
  cases hs with
  | told n => exact .inl hr
  | @handled n queue hqueue =>
    obtain hr | ⟨hmem, hnone⟩ := World.ready_of_foldl hr
    · exact .inl hr
    · rw [(h.queued.next hqueue).2]
      exact .inr ⟨hnone, h.desk.present_of_handle s.now hmem⟩
  | released =>
    obtain hr | ⟨hmem, hnone⟩ := World.ready_of_foldl hr
    · exact .inl hr
    · rw [(h.queued.same (t := .released) rfl rfl).2]
      exact .inr ⟨hnone, h.desk.present_of_release s.now hmem⟩
  | elapsed duration => exact .inl hr
  | @advanced e w hadvance hstep =>
    obtain hr | ⟨rfl, -⟩ := (World.steps_of_step? hstep).ready_before hr
    · exact .inl hr
    · cases hadvance

/-- A notice that is handled while the ticket of a pass stays current brings no text for its
document. -/
theorem Informed.textOf?_handled {n : Notice} (h : s.Informed ts)
    (hfits : n.Fits (handledNotices ts)) (hk : s.world.passes[p]? = some (.asking k))
    (hc : s.world.analyzer.registry.isCurrent k.ticket = true)
    (hc' : ((s.desk.handle s.now n).2.foldl World.step s.world).analyzer.registry.isCurrent
      k.ticket = true) :
    textOf? k.request.key (handledNotices ts ++ [n]) = textOf? k.request.key (handledNotices ts) := by
  have hticket := h.ordered.tickets p k hk
  refine textOf?_of_other fun r hr => ?_
  cases n with
  | opened r' =>
    cases hr
    refine Bool.eq_false_iff.2 fun hkey => ?_
    -- the document of a current ticket is open, so it is not opened again
    obtain ⟨session, hsession, -⟩ := Registry.isCurrent_iff.1 hc
    rw [hticket.1, ← Registry.session?_congr hkey] at hsession
    cases (h.isOpen r.key (Registry.isOpen_iff.2 ⟨session, hsession⟩)).symm.trans hfits
  | changed r' =>
    cases hr
    rw [← hticket.1]
    exact World.not_edited_of_isCurrent hticket h.ordered.sound hc'
  | _ => cases hr

/-- A pass that asks after a turn begins by it or asked before it; while its ticket stays current, no
text comes for its document. -/
theorem Informed.asking_before (h : s.Informed ts) (hns : Orderly (notices ts)) (hs : s.Steps t s')
    (hk : s'.world.passes[p]? = some (.asking k)) :
    t = .advanced (.begun p) ∧ s.world.passes[p]? = some (.ready k.request) ∨
      ∃ k', s.world.passes[p]? = some (.asking k') ∧ k'.request = k.request ∧
        k'.ticket = k.ticket ∧ (s'.world.analyzer.registry.isCurrent k.ticket = true →
          s.world.analyzer.registry.isCurrent k.ticket = true ∧
            textOf? k.request.key (handledNotices (ts ++ [t])) =
              textOf? k.request.key (handledNotices ts)) := by
  cases hs with
  | told n =>
    refine .inr ⟨k, hk, rfl, rfl, fun hc => ⟨hc, ?_⟩⟩
    rw [(h.queued.other (t := .told n) rfl).2]
  | @handled n queue hqueue =>
    have hes : ∀ e ∈ (s.desk.handle s.now n).2, e.isAdvance = false := by
      cases n <;> simp [Desk.handle, Event.isAdvance]
    obtain ⟨hk', hcurrent⟩ := World.asking_of_foldl h.ordered hes hk
    refine .inr ⟨k, hk', rfl, rfl, fun hc => ⟨hcurrent hc, ?_⟩⟩
    rw [(h.queued.next hqueue).2]
    exact h.textOf?_handled (h.fits hns hqueue) hk' (hcurrent hc) hc
  | released =>
    have hes : ∀ e ∈ (s.desk.release s.now).2, e.isAdvance = false := by
      simp [Desk.release, Event.isAdvance]
    obtain ⟨hk', hcurrent⟩ := World.asking_of_foldl h.ordered hes hk
    refine .inr ⟨k, hk', rfl, rfl, fun hc => ⟨hcurrent hc, ?_⟩⟩
    rw [(h.queued.same (t := .released) rfl rfl).2]
  | elapsed duration =>
    refine .inr ⟨k, hk, rfl, rfl, fun hc => ⟨hc, ?_⟩⟩
    rw [(h.queued.same (t := .elapsed duration) rfl rfl).2]
  | @advanced e w hadvance hstep =>
    have hsteps := World.steps_of_step? hstep
    obtain ⟨rfl, r, hr, hbegins⟩ | ⟨k', hk', hsame, -⟩ := hsteps.asking_before hk
    · rw [hbegins.holds.1]
      exact .inl ⟨rfl, hr⟩
    · have hticket : k'.ticket = k.ticket := by rw [hsame]
      refine .inr ⟨k', hk', by rw [hsame], hticket, fun hc => ⟨?_, ?_⟩⟩
      · rw [← hticket] at hc ⊢
        exact (h.ordered.tickets p k' hk').isCurrent_of_step hsteps hc
      · rw [(h.queued.same (t := .advanced e) rfl rfl).2]

/-! ### Passes from their calls on -/

/-- The last of some turns calls for a pass with a request. -/
def Calls (start : Service) (called : List Turn) (p : Nat) (r : Request) : Prop :=
  ∃ (before : List Turn) (t : Turn) (s s' : Service), called = before ++ [t] ∧
    Run start before s ∧ s.step? t = some s' ∧ s.world.passes[p]? = none ∧
    s'.world.passes[p]? = some (.ready r)

/-- Each pass was called for with the text its document had then; from its beginning on this text
stays the same as long as its ticket is current. -/
structure Traced (start s : Service) (ts : List Turn) : Prop where
  ready : ∀ p r, s.world.passes[p]? = some (.ready r) → ∃ called waiting,
    ts = called ++ waiting ∧ Calls start called p r ∧
    textOf? r.key (handledNotices called) = some r.document.text
  asking : ∀ p k, s.world.passes[p]? = some (.asking k) → ∃ called waiting later,
    ts = called ++ waiting ++ .advanced (.begun p) :: later ∧ Calls start called p k.request ∧
    textOf? k.request.key (handledNotices called) = some k.request.document.text ∧
    (s.world.analyzer.registry.isCurrent k.ticket = true →
      textOf? k.request.key (handledNotices ts) =
        textOf? k.request.key (handledNotices (called ++ waiting)))

theorem Traced.step (h : Traced start s ts) (hrun : Run start ts s) (hi : s.Informed ts)
    (hns : Orderly (notices ts)) (hs : s.step? t = some s') : Traced start s' (ts ++ [t]) where
  ready p r hr := by
    obtain hr' | ⟨hnone, htext⟩ := hi.ready_before (steps_of_step? hs) hr
    · obtain ⟨called, waiting, rfl, hcalls, htext⟩ := h.ready p r hr'
      exact ⟨called, waiting ++ [t], List.append_assoc .., hcalls, htext⟩
    · have hcalls : Calls start (ts ++ [t]) p r := ⟨ts, t, s, s', rfl, hrun, hs, hnone, hr⟩
      exact ⟨ts ++ [t], [], (List.append_nil _).symm, hcalls, htext⟩
  asking p k hk := by
    obtain ⟨rfl, hr⟩ | ⟨k', hk', hrequest, hticket, hcurrent⟩ :=
      hi.asking_before hns (steps_of_step? hs) hk
    · obtain ⟨called, waiting, rfl, hcalls, htext⟩ := h.ready p _ hr
      refine ⟨called, waiting, [], rfl, hcalls, htext, fun _ => ?_⟩
      rw [(hi.queued.same (t := .advanced (.begun p)) rfl rfl).2]
    · obtain ⟨called, waiting, later, hts, hcalls, htext, hsame⟩ := h.asking p k' hk'
      rw [hrequest] at hcalls htext hsame
      rw [hticket] at hsame
      refine ⟨called, waiting, later ++ [t], ?_, hcalls, htext, fun hc => ?_⟩
      · rw [hts, List.append_assoc, List.cons_append]
      · obtain ⟨hc, htold⟩ := hcurrent hc
        exact htold.trans (hsame hc)

theorem Run.traced {R : Readers} {c : Config} (h : Run (.reading R c) ts s)
    (hns : Orderly (notices ts)) : Traced (.reading R c) s ts := by
  induction h with
  | start => exact ⟨fun _ _ h => (by cases h), fun _ _ h => (by cases h)⟩
  | step hrun hs ih =>
    rw [notices_append] at hns
    exact (ih hns.left).step hrun (hrun.informed hns.left) hns.left hs

end Service

/-! ### Kept results -/

/-- An event by which a pass with a request keeps a tree or results in the registry. -/
inductive World.Publishes (w : World) (p : Nat) : Event → Request → Prop
  | tree {r : Request} {t : Ticket} {d : Dialect} {tree : Tree} :
    w.passes[p]? = some (.ready r) → w.Performs (.begun p) (.storeTree t d tree) →
    Publishes w p (.begun p) r
  | results {k : Work} : w.passes[p]? = some (.asking k) →
    w.Performs (.finished p) (.commit k.ticket k.request.visible k.fan.hits) →
    Publishes w p (.finished p) k.request

namespace Service

variable {s : Service} {ts : List Turn} {p : Nat} {r : Request} {e : Event}

/-- What a pass keeps is of the present text exactly if the text is the same when the pass begins as
it was when the pass was called for. -/
theorem published_text_iff {R : Readers} {c : Config} (h : Run (.reading R c) ts s)
    (hns : Orderly (notices ts)) (hp : s.world.Publishes p e r) : ∃ called waiting later,
      ts ++ [.advanced e] = called ++ waiting ++ .advanced (.begun p) :: later ∧
      Calls (.reading R c) called p r ∧
      (textOf? r.key (handledNotices ts) = some r.document.text ↔
        textOf? r.key (handledNotices called) =
          textOf? r.key (handledNotices (called ++ waiting))) := by
  have htraced := h.traced hns
  cases hp with
  | tree hr =>
    obtain ⟨called, waiting, rfl, hcalls, htext⟩ := htraced.ready p r hr
    refine ⟨called, waiting, [], rfl, hcalls, ?_⟩
    rw [htext]
    exact eq_comm
  | @results k hk hperforms =>
    have hc : s.world.analyzer.registry.isCurrent k.ticket = true := by
      generalize hop : Operation.commit k.ticket k.request.visible k.fan.hits = op at hperforms
      cases hperforms with
      | finished _ _ hc =>
        injection hop with hticket
        rwa [hticket]
    obtain ⟨called, waiting, later, hts, hcalls, htext, hsame⟩ := htraced.asking p k hk
    refine ⟨called, waiting, later ++ [.advanced (.finished p)], ?_, hcalls, ?_⟩
    · rw [hts, List.append_assoc, List.cons_append]
    · rw [hsame hc, htext]
      exact eq_comm

/-! ### A text that comes too late -/

open TwoLines in
/-- The text of the document changes when the pass over its first line was called for and has not
begun. -/
def retyping : List Turn :=
  [.told (.opened ⟨document, lineAt 0⟩), .handled, .elapsed 250, .released,
    .told (.changed ⟨{ document with text := "y" }, lineAt 0⟩), .handled,
    .advanced (.begun 0), .advanced (.asked 0), .advanced (.answered 0 0 (some signature))]

open TwoLines in
theorem orderly_retyping : Orderly (notices retyping) := by
  have hopened : Orderly [.opened ⟨document, lineAt 0⟩] :=
    orderly_nil.append (n := .opened ⟨document, lineAt 0⟩) rfl
  exact hopened.append trivial

open TwoLines in
theorem publishes_retyping : ∃ s r, Run (.reading readers .builtIn) retyping s ∧
    s.world.Publishes 0 (.finished 0) r ∧ (r.key == document.key) = true ∧
    r.document.text = document.text := by
  have hrun : (((reading readers .builtIn).run? retyping).bind fun s =>
      (s.world.asking? 0).map fun k =>
        k.fan.isDone && s.world.analyzer.registry.isCurrent k.ticket &&
          (k.request.key == document.key && k.request.document.text == document.text)) =
      some true := by decide +kernel
  obtain ⟨s, hs, hasking⟩ := Option.bind_eq_some_iff.1 hrun
  obtain ⟨k, hk, hgood⟩ := Option.map_eq_some_iff.1 hasking
  simp only [Bool.and_eq_true, beq_iff_eq] at hgood
  obtain ⟨⟨hdone, hcurrent⟩, hkey, htext⟩ := hgood
  have hk := World.asking?_eq_some_iff.1 hk
  exact ⟨s, k.request, run_of_run? hs, .results hk (.finished hk hdone hcurrent), hkey, htext⟩

open TwoLines in
/-- The pass keeps what it found in the old text though the new one was handled. -/
theorem old_text_published : ∃ s r, Run (.reading readers .builtIn) retyping s ∧
    Orderly (notices retyping) ∧ s.world.Publishes 0 (.finished 0) r ∧
    textOf? r.key (handledNotices retyping) ≠ some r.document.text := by
  obtain ⟨s, r, hrun, hpublishes, hkey, htext⟩ := publishes_retyping
  refine ⟨s, r, hrun, orderly_retyping, hpublishes, ?_⟩
  rw [textOf?_congr hkey, htext]
  decide +kernel

open TwoLines in
/-- Between its call and its beginning another text was handled. -/
theorem old_text_published_iff : ∃ s r, Run (.reading readers .builtIn) retyping s ∧
    Orderly (notices retyping) ∧ s.world.Publishes 0 (.finished 0) r ∧
    ∃ called waiting later, retyping ++ [.advanced (.finished 0)] =
        called ++ waiting ++ .advanced (.begun 0) :: later ∧
      Calls (.reading readers .builtIn) called 0 r ∧
      textOf? r.key (handledNotices called) ≠ textOf? r.key (handledNotices (called ++ waiting)) := by
  obtain ⟨s, r, hrun, hpublishes, hkey, htext⟩ := publishes_retyping
  obtain ⟨called, waiting, later, hts, hcalls, hiff⟩ :=
    published_text_iff hrun orderly_retyping hpublishes
  refine ⟨s, r, hrun, orderly_retyping, hpublishes, called, waiting, later, hts, hcalls, ?_⟩
  refine fun hsame => absurd (hiff.2 hsame) ?_
  rw [textOf?_congr hkey, htext]
  decide +kernel

end Service

end AnySpans.Passes
