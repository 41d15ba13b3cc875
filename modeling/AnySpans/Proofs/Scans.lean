import AnySpans.Text.Cursor
import AnySpans.Text.Units
import Mathlib.Data.List.Forall2

/-!
# Where scans lead

A scan passes some characters of its text (`Cursor.Passes`), so that it comes to places of the text
it began in (`Cursor.In`).  Places are told by their byte offsets: `Boundary` says that an offset
does not lie inside of a character, `StandsAt` which character begins there.
-/

namespace AnySpans.Text

/-! ### Places in a text -/

/-- A byte offset does not lie inside of a character. -/
def Boundary (text : List Char) (i : Nat) : Prop :=
  ∃ pre post, text = pre ++ post ∧ byteLength pre = i

/-- A character that satisfies a test begins at a byte offset. -/
def StandsAt (text : List Char) (i : Nat) (p : Char → Prop) : Prop :=
  ∃ pre c post, text = pre ++ c :: post ∧ byteLength pre = i ∧ p c

section

variable {text pre post : List Char} {c : Char} {i : Nat} {p : Char → Prop}

theorem Boundary.le (h : Boundary text i) : i ≤ byteLength text := by
  obtain ⟨pre, post, rfl, rfl⟩ := h
  rw [byteLength_append]
  exact Nat.le_add_right _ _

/-- A boundary does not come after the beginning of a character and before its end. -/
theorem Boundary.le_or_le (h : Boundary (pre ++ c :: post) i) :
    i ≤ byteLength pre ∨ byteLength pre + c.utf8Size ≤ i := by
  obtain ⟨a, b, hab, rfl⟩ := h
  obtain ⟨a', rfl, hb⟩ | ⟨a', rfl, -⟩ := List.append_eq_append_iff.1 hab
  · cases a' with
    | nil => exact .inl (Nat.le_of_eq (by rw [List.append_nil]))
    | cons d ds =>
      obtain ⟨rfl, -⟩ := List.cons_eq_cons.1 hb
      refine .inr ?_
      rw [byteLength_append, byteLength_cons]
      omega
  · refine .inl ?_
    rw [byteLength_append]
    omega

theorem StandsAt.boundary (h : StandsAt text i p) : Boundary text i := by
  obtain ⟨pre, c, post, htext, hi, -⟩ := h
  exact ⟨pre, c :: post, htext, hi⟩

theorem StandsAt.boundary_succ (h : StandsAt text i p) (hp : ∀ c, p c → c.utf8Size = 1) :
    Boundary text (i + 1) := by
  obtain ⟨pre, c, post, htext, rfl, hc⟩ := h
  refine ⟨pre ++ [c], post, by rw [htext, List.append_assoc]; rfl, ?_⟩
  rw [byteLength_append, byteLength_cons, byteLength_nil, hp c hc]

theorem StandsAt.lt (h : StandsAt text i p) : i < byteLength text := by
  obtain ⟨pre, c, post, rfl, rfl, -⟩ := h
  have := c.utf8Size_pos
  rw [byteLength_append, byteLength_cons]
  omega

/-- Only one character begins at an offset. -/
theorem StandsAt.of_cons (h : StandsAt (pre ++ c :: post) i p) (hi : byteLength pre = i) : p c := by
  obtain ⟨a, d, b, hab, hai, hd⟩ := h
  have hc := c.utf8Size_pos
  have hd' := d.utf8Size_pos
  obtain ⟨a', rfl, hb⟩ | ⟨a', rfl, hb⟩ := List.append_eq_append_iff.1 hab
  · cases a' with
    | nil =>
      obtain ⟨rfl, -⟩ := List.cons_eq_cons.1 hb
      exact hd
    | cons e es =>
      obtain ⟨rfl, -⟩ := List.cons_eq_cons.1 hb
      rw [byteLength_append, byteLength_cons] at hai
      omega
  · cases a' with
    | nil =>
      obtain ⟨rfl, -⟩ := List.cons_eq_cons.1 hb
      exact hd
    | cons e es =>
      obtain ⟨rfl, -⟩ := List.cons_eq_cons.1 hb
      rw [byteLength_append, byteLength_cons] at hi
      omega

end

/-! ### Scans -/

namespace Cursor

variable {α : Type} {text cs ds : List Char} {k l m : Cursor} {p : Char → Bool} {a : α}

/-- A later cursor comes after some characters. -/
structure Passes (k : Cursor) (cs : List Char) (l : Cursor) : Prop where
  rest : k.rest = cs ++ l.rest
  byte : l.byte = k.byte + byteLength cs

theorem Passes.nil (k : Cursor) : k.Passes [] k := ⟨rfl, rfl⟩

theorem Passes.trans (h : k.Passes cs l) (h' : l.Passes ds m) : k.Passes (cs ++ ds) m where
  rest := by rw [h.rest, h'.rest, List.append_assoc]
  byte := by rw [h'.byte, h.byte, byteLength_append, Nat.add_assoc]

theorem Passes.cons (byte : Nat) (c : Char) (cs : List Char) :
    (⟨byte, c :: cs⟩ : Cursor).Passes [c] ⟨byte + c.utf8Size, cs⟩ := ⟨rfl, rfl⟩

theorem exists_passes_skipFrom (p : Char → Bool) (byte : Nat) (cs : List Char) :
    ∃ ds, (⟨byte, cs⟩ : Cursor).Passes ds (skipFrom p byte cs) := by
  induction cs generalizing byte with
  | nil => exact ⟨[], .nil _⟩
  | cons c cs ih =>
    rw [skipFrom]
    split
    · obtain ⟨ds, hds⟩ := ih (byte + c.utf8Size)
      exact ⟨_, (Passes.cons byte c cs).trans hds⟩
    · exact ⟨[], .nil _⟩

theorem exists_passes_skipWhile (k : Cursor) (p : Char → Bool) :
    ∃ cs, k.Passes cs (k.skipWhile p) := exists_passes_skipFrom p k.byte k.rest

theorem exists_passes_of_expect {ps : List (Char → Bool)} (h : k.expect ps = some l) :
    ∃ cs, k.Passes cs l ∧ List.Forall₂ (fun c p => p c = true) cs ps := by
  induction ps generalizing k with
  | nil =>
    obtain rfl := Option.some.inj h
    exact ⟨[], .nil _, .nil⟩
  | cons p ps ih =>
    obtain ⟨byte, rest⟩ := k
    cases rest with
    | nil => cases h
    | cons c cs =>
      rw [expect] at h
      dsimp only at h
      split at h
      · obtain ⟨ds, hds, hps⟩ := ih h
        exact ⟨_, (Passes.cons byte c cs).trans hds, .cons ‹_› hps⟩
      · cases h

theorem exists_passes_of_one (h : k.one p = some l) : ∃ c, k.Passes [c] l ∧ p c = true := by
  obtain ⟨cs, hcs, hp⟩ := exists_passes_of_expect h
  cases hp with
  | cons hc hnil =>
    cases hnil
    exact ⟨_, hcs, hc⟩

theorem exists_passes_of_run (h : k.run p = some l) : ∃ cs, k.Passes cs l := by
  obtain ⟨m, hm, rfl⟩ := Option.map_eq_some_iff.1 h
  obtain ⟨c, hc, -⟩ := exists_passes_of_one hm
  obtain ⟨cs, hcs⟩ := m.exists_passes_skipWhile p
  exact ⟨_, hc.trans hcs⟩

theorem exists_passes_of_find {f : Cursor → Option α} (h : k.find f = some (l, a)) :
    (∃ cs, k.Passes cs l) ∧ f l = some a := by
  obtain ⟨byte, rest⟩ := k
  replace h : findFrom f byte rest = some (l, a) := h
  induction rest generalizing byte with
  | nil =>
    obtain ⟨b, hb, he⟩ := Option.map_eq_some_iff.1 h
    cases he
    exact ⟨⟨[], .nil _⟩, hb⟩
  | cons c cs ih =>
    rw [findFrom] at h
    split at h
    · cases h
      exact ⟨⟨[], .nil _⟩, ‹_›⟩
    · obtain ⟨⟨ds, hds⟩, hf⟩ := ih _ h
      exact ⟨⟨_, (Passes.cons byte c cs).trans hds⟩, hf⟩

theorem exists_passes_of_findLast {f : Cursor → Option α} (h : k.findLast f = some (l, a)) :
    (∃ cs, k.Passes cs l) ∧ f l = some a := by
  obtain ⟨byte, rest⟩ := k
  replace h : findLastFrom f byte rest = some (l, a) := h
  induction rest generalizing byte with
  | nil =>
    obtain ⟨b, hb, he⟩ := Option.map_eq_some_iff.1 h
    cases he
    exact ⟨⟨[], .nil _⟩, hb⟩
  | cons c cs ih =>
    rw [findLastFrom] at h
    split at h
    · rename_i hr
      cases h
      obtain ⟨⟨ds, hds⟩, hf⟩ := ih _ hr
      exact ⟨⟨_, (Passes.cons byte c cs).trans hds⟩, hf⟩
    · obtain ⟨b, hb, he⟩ := Option.map_eq_some_iff.1 h
      cases he
      exact ⟨⟨[], .nil _⟩, hb⟩

/-- What is found from left to right is found at places that come one after another. -/
theorem exists_passes_of_mem_all {f : Cursor → Option (α × Cursor)}
    (hf : ∀ k a l, f k = some (a, l) → ∃ cs, k.Passes cs l) (h : a ∈ k.all f) :
    ∃ l m, (∃ cs, k.Passes cs l) ∧ f l = some (a, m) := by
  obtain ⟨byte, rest⟩ := k
  replace h : a ∈ allFrom f byte rest := h
  induction byte, rest using allFrom.induct f with
  | case1 byte cs b k hk hlt ih =>
    rw [allFrom.eq_def, hk] at h
    dsimp only at h
    rw [if_pos hlt] at h
    obtain rfl | h := List.mem_cons.1 h
    · exact ⟨_, k, ⟨[], .nil _⟩, hk⟩
    · obtain ⟨l, m, ⟨ds, hds⟩, hl⟩ := ih h
      obtain ⟨cs', hcs'⟩ := hf _ _ _ hk
      exact ⟨l, m, ⟨_, hcs'.trans hds⟩, hl⟩
  | case2 byte b k hk hlt =>
    rw [allFrom.eq_def, hk] at h
    dsimp only at h
    rw [if_neg hlt] at h
    cases h
  | case3 byte b k c cs hk hlt ih =>
    rw [allFrom.eq_def, hk] at h
    dsimp only at h
    rw [if_neg hlt] at h
    obtain ⟨l, m, ⟨ds, hds⟩, hl⟩ := ih h
    exact ⟨l, m, ⟨_, (Passes.cons byte c cs).trans hds⟩, hl⟩
  | case4 byte hk =>
    rw [allFrom.eq_def, hk] at h
    cases h
  | case5 byte c cs hk ih =>
    rw [allFrom.eq_def, hk] at h
    obtain ⟨l, m, ⟨ds, hds⟩, hl⟩ := ih h
    exact ⟨l, m, ⟨_, (Passes.cons byte c cs).trans hds⟩, hl⟩

theorem Passes.textTo_eq (h : k.Passes cs l) : k.textTo l = cs := by
  rw [textTo, h.rest, List.length_append, Nat.add_sub_cancel, List.take_left']
  rfl

/-! ### Cursors in a text -/

/-- What follows a cursor stands in a text at its offset. -/
def In (k : Cursor) (text : List Char) : Prop :=
  ∃ pre post, text = pre ++ k.rest ++ post ∧ byteLength pre = k.byte

theorem in_ofText (text : List Char) : (ofText text 0).In text :=
  ⟨[], [], (List.append_nil _).symm, rfl⟩

theorem In.passes (h : k.In text) (hl : k.Passes cs l) : l.In text := by
  obtain ⟨pre, post, rfl, hk⟩ := h
  refine ⟨pre ++ cs, post, ?_, ?_⟩
  · rw [hl.rest, List.append_assoc pre cs]
  · rw [byteLength_append, hk, hl.byte]

/-- A part of what follows a cursor. -/
theorem In.part (h : k.In text) (hl : k.Passes cs l) : (⟨k.byte, cs⟩ : Cursor).In text := by
  obtain ⟨pre, post, rfl, hk⟩ := h
  refine ⟨pre, l.rest ++ post, ?_, hk⟩
  rw [hl.rest]
  simp only [List.append_assoc]

theorem In.boundary (h : k.In text) : Boundary text k.byte := by
  obtain ⟨pre, post, rfl, hk⟩ := h
  exact ⟨pre, k.rest ++ post, List.append_assoc _ _ _, hk⟩

theorem In.standsAt (h : k.In text) {c : Char} (hl : k.Passes [c] l) {q : Char → Prop} (hc : q c) :
    StandsAt text k.byte q := by
  obtain ⟨pre, post, rfl, hk⟩ := h
  refine ⟨pre, c, l.rest ++ post, ?_, hk, hc⟩
  rw [hl.rest, List.append_assoc]
  rfl

end Cursor

end AnySpans.Text
