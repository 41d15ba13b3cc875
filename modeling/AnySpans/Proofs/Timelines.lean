import AnySpans.Proofs.Publishing
import Mathlib.Data.List.DropRight

/-!
# Requests in time

The turns of a service tell the time (`clock`) and which notices are handled when (`handledAt`).
What stands for a document after some notices is the last request for it, unless it was closed since
(`standing?`); a document is `Calm` when nothing came for it during the delay of the settings that
are in force.
-/

namespace AnySpans.Passes

open AnySpans.Documents AnySpans.Settings

/-! ### The time in a run -/

def Turn.duration : Turn → Nat
  | .elapsed duration => duration
  | _ => 0

/-- The time after some turns. -/
def clock : List Turn → Nat
  | [] => 0
  | t :: ts => t.duration + clock ts

/-- The times at which notices are handled in some turns that begin at a time. -/
def handlingTimes (now : Nat) : List Turn → List Nat
  | [] => []
  | t :: ts =>
    (if t.isHandled then [now] else []) ++ handlingTimes (now + t.duration) ts

/-- The notices that are handled in some turns, each with the time. -/
def handledAt (ts : List Turn) : List (Notice × Nat) :=
  (handledNotices ts).zip (handlingTimes 0 ts)

theorem clock_concat (ts : List Turn) (t : Turn) : clock (ts ++ [t]) = clock ts + t.duration := by
  induction ts with
  | nil => exact Nat.add_comm _ _
  | cons t' ts ih => rw [List.cons_append, clock, ih, clock, Nat.add_assoc]

theorem handlingTimes_concat (now : Nat) (ts : List Turn) (t : Turn) :
    handlingTimes now (ts ++ [t]) =
      handlingTimes now ts ++ if t.isHandled then [now + clock ts] else [] := by
  induction ts generalizing now with
  | nil => simp [handlingTimes, clock]
  | cons t' ts ih =>
    rw [List.cons_append, handlingTimes, ih, handlingTimes, List.append_assoc, clock,
      Nat.add_assoc]

theorem length_handlingTimes (now : Nat) (ts : List Turn) :
    (handlingTimes now ts).length = ts.countP Turn.isHandled := by
  induction ts generalizing now with
  | nil => rfl
  | cons t ts ih =>
    rw [handlingTimes, List.length_append, ih, List.countP_cons, Nat.add_comm]
    split <;> rfl

theorem le_clock_of_mem {ts : List Turn} {now time : Nat} (h : time ∈ handlingTimes now ts) :
    time ≤ now + clock ts := by
  induction ts generalizing now with
  | nil => cases h
  | cons t ts ih =>
    rw [clock, ← Nat.add_assoc]
    obtain h | h := List.mem_append.1 h
    · split at h
      · rw [List.mem_singleton.1 h]
        omega
      · cases h
    · exact ih h

section

variable {queue : List Notice} {n : Notice} {ts : List Turn} {t : Turn}

theorem Queued.length_handledNotices (h : Queued queue ts) :
    (handledNotices ts).length = (handlingTimes 0 ts).length := by
  obtain ⟨handled, hns, hlength⟩ := h
  rw [handledNotices_eq hns hlength, hlength, length_handlingTimes]

theorem Queued.handledAt_next (h : Queued (n :: queue) ts) :
    handledAt (ts ++ [.handled]) = handledAt ts ++ [(n, clock ts)] := by
  rw [handledAt, (h.next rfl).2, handlingTimes_concat, List.zip_append h.length_handledNotices,
    Nat.zero_add]
  rfl

theorem Queued.handledAt_other (h : Queued queue ts) (ht : t.isHandled = false) :
    handledAt (ts ++ [t]) = handledAt ts := by
  rw [handledAt, (h.other ht).2, handlingTimes_concat, ht, if_neg Bool.false_ne_true,
    List.append_nil, handledAt]

theorem le_clock {x : Notice × Nat} (h : x ∈ handledAt ts) : x.2 ≤ clock ts :=
  Nat.zero_add (clock ts) ▸ le_clock_of_mem (List.of_mem_zip h).2

end

/-! ### Standing requests -/

namespace Notice

/-- The request for a document that a notice carries. -/
def requestOf? (j : Key) (n : Notice) : Option Request := n.request?.filter fun r => r.key == j

/-- Whether a notice closes a document. -/
def closes (j : Key) : Notice → Bool
  | .closed k => k == j
  | _ => false

/-- The settings that a notice brings. -/
def settings? : Notice → Option Config
  | .configured c => some c
  | _ => none

theorem eq_configured {n : Notice} {c : Config} (h : n.settings? = some c) : n = .configured c := by
  cases n with
  | configured c' => exact congrArg configured (Option.some.inj h)
  | _ => cases h

end Notice

/-- The last request for a document with its time, if it was not closed since. -/
def standing? (j : Key) (log : List (Notice × Nat)) : Option (Request × Nat) :=
  ((log.rtakeWhile fun x => !x.1.closes j).filterMap fun x =>
    (x.1.requestOf? j).map (·, x.2)).getLast?

/-- The delay of the last settings; first the settings are `c`. -/
def delayAfter (c : Config) (ns : List Notice) : Nat :=
  ((ns.filterMap Notice.settings?).getLast?.getD c).debounce

section

variable {j k : Key} {log : List (Notice × Nat)} {n : Notice} {time : Nat} {r : Request}

theorem standing?_concat : standing? j (log ++ [(n, time)]) =
    if n.closes j then none else ((n.requestOf? j).map (·, time)).or (standing? j log) := by
  rw [standing?, List.rtakeWhile_concat]
  cases hc : n.closes j with
  | true => simp
  | false =>
    cases hr : n.requestOf? j <;> simp [hr, standing?]

theorem Notice.requestOf?_congr (h : (j == k) = true) (n : Notice) :
    n.requestOf? j = n.requestOf? k := by
  have hkey : ∀ r : Request, (r.key == j) = (r.key == k) := fun r => BEq.congr_right h
  simp only [requestOf?, hkey]

theorem Notice.closes_congr (h : (j == k) = true) (n : Notice) : n.closes j = n.closes k := by
  cases n <;> first | rfl | exact BEq.congr_right h

theorem standing?_congr (h : (j == k) = true) (log : List (Notice × Nat)) :
    standing? j log = standing? k log := by
  simp only [standing?, Notice.requestOf?_congr h, Notice.closes_congr h]

/-- A standing request was told. -/
theorem exists_of_standing? (h : standing? j log = some (r, time)) :
    ∃ n, (n, time) ∈ log ∧ n.requestOf? j = some r := by
  obtain ⟨⟨n, time'⟩, hmem, hx⟩ := List.mem_filterMap.1 (List.mem_of_getLast? h)
  obtain ⟨r', hr, hx⟩ := Option.map_eq_some_iff.1 hx
  cases hx
  exact ⟨n, (List.rtakeWhile_suffix _ _).subset hmem, hr⟩

theorem Notice.key_of_requestOf? (h : n.requestOf? j = some r) : (r.key == j) = true :=
  (Option.filter_eq_some_iff.1 h).2

theorem delayAfter_concat {c : Config} {ns : List Notice} : delayAfter c (ns ++ [n]) =
    (n.settings?.map Config.debounce).getD (delayAfter c ns) := by
  rw [delayAfter, List.filterMap_append]
  cases h : n.settings? <;> simp [h, delayAfter]

end

/-- Nothing came for a document during the delay in force, after a request for it that stands. -/
def Calm (c : Config) (j : Key) (ts : List Turn) : Bool :=
  (standing? j (handledAt ts)).any fun x => x.2 + delayAfter c (handledNotices ts) ≤ clock ts

/-! ### Parts of a run -/

/-- The notices that are handled in the later ones of some turns. -/
def handledIn (before later : List Turn) : List Notice :=
  (handledNotices (before ++ later)).drop (handledNotices before).length

theorem Queued.handledIn_next {queue : List Notice} {n : Notice} {ts : List Turn}
    (h : Queued (n :: queue) ts) : handledIn ts [.handled] = [n] := by
  rw [handledIn, (h.next rfl).2, List.drop_left]

namespace Service

variable {start s s' : Service} {ts : List Turn} {t : Turn}

theorem Run.of_concat (h : Run start (ts ++ [t]) s') :
    ∃ s, Run start ts s ∧ s.step? t = some s' := by
  generalize hts : ts ++ [t] = ts' at h
  cases h with
  | start => simp at hts
  | @step ts₀ t₀ s _ hrun hs =>
    obtain ⟨rfl, ht⟩ := List.append_inj' hts rfl
    cases ht
    exact ⟨s, hrun, hs⟩

/-- The turns determine what a service becomes. -/
theorem Run.unique (h : Run start ts s) (h' : Run start ts s') : s = s' := by
  induction h generalizing s' with
  | start =>
    generalize hts : ([] : List Turn) = ts at h'
    cases h' with
    | start => rfl
    | step => simp at hts
  | step _ hs ih =>
    obtain ⟨s₀, hrun, hs'⟩ := h'.of_concat
    rw [ih hrun] at hs
    exact Option.some.inj (hs.symm.trans hs')

theorem Run.left {later : List Turn} (h : Run start (ts ++ later) s) : ∃ s₀, Run start ts s₀ := by
  induction later using List.reverseRecOn generalizing s with
  | nil => exact ⟨s, List.append_nil ts ▸ h⟩
  | append_singleton later t ih =>
    rw [← List.append_assoc] at h
    obtain ⟨s₀, hrun, -⟩ := h.of_concat
    exact ih hrun

end Service

end AnySpans.Passes
