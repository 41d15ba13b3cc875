import AnySpans.Proofs.Scans

/-!
# Matches from left to right

What a scan does is told without running it: characters are skipped up to the first that fails a test
(`skipWhile_eq`), `find` leads to the first place where a scan succeeds (`find_eq_some_iff`), and `all`
gives what is matched from left to right (`scanned_iff`): the first match, then the matches of what
follows it, and so on until there is none.
-/

namespace AnySpans.Text.Cursor

variable {α : Type} {cs ds : List Char} {k l m : Cursor} {p : Char → Bool} {ps : List (Char → Bool)}
  {a : α}

/-! ### Places after a cursor -/

/-- The place after as many characters is the same. -/
theorem Passes.eq_of_length (h : k.Passes cs l) (h' : k.Passes ds m) (hlength : cs.length = ds.length) :
    cs = ds ∧ l = m := by
  obtain ⟨rfl, hrest⟩ := List.append_inj (h.rest.symm.trans h'.rest) hlength
  refine ⟨rfl, ?_⟩
  obtain ⟨byte, rest⟩ := l
  obtain ⟨byte', rest'⟩ := m
  obtain rfl : rest = rest' := hrest
  obtain rfl : byte = byte' := h.byte.trans h'.byte.symm
  rfl

theorem Passes.eq_of_nil (h : k.Passes [] l) : k = l := (Passes.nil k).eq_of_length h rfl |>.2

/-- A place inside of a stretch of text divides it. -/
theorem Passes.divide (h : k.Passes (cs ++ ds) l) : ∃ m, k.Passes cs m ∧ m.Passes ds l := by
  refine ⟨⟨k.byte + byteLength cs, ds ++ l.rest⟩, ⟨?_, rfl⟩, rfl, ?_⟩
  · rw [h.rest, List.append_assoc]
  · rw [h.byte, byteLength_append, Nat.add_assoc]

/-- Of two places after a cursor, the nearer one comes first. -/
theorem Passes.exists_of_le (h : k.Passes cs l) (h' : k.Passes ds m) (hle : cs.length ≤ ds.length) :
    ∃ es, ds = cs ++ es ∧ l.Passes es m := by
  have hnear : cs <+: k.rest := ⟨_, h.rest.symm⟩
  have hfar : ds <+: k.rest := ⟨_, h'.rest.symm⟩
  obtain ⟨es, rfl⟩ := List.prefix_of_prefix_length_le hnear hfar hle
  obtain ⟨n, hn, hes⟩ := h'.divide
  obtain ⟨-, rfl⟩ := h.eq_of_length hn rfl
  exact ⟨es, rfl, hes⟩

theorem Passes.of_cons {byte : Nat} {c d : Char} {rest : List Char}
    (h : (⟨byte, c :: rest⟩ : Cursor).Passes (d :: cs) l) :
    c = d ∧ (⟨byte + c.utf8Size, rest⟩ : Cursor).Passes cs l := by
  obtain ⟨hrest, hbyte⟩ := h
  injection hrest with hc hrest
  subst hc
  refine ⟨rfl, hrest, ?_⟩
  rw [hbyte, byteLength_cons]
  exact (Nat.add_assoc ..).symm

theorem Passes.to_cons {byte : Nat} {c : Char} {rest : List Char}
    (h : (⟨byte + c.utf8Size, rest⟩ : Cursor).Passes cs l) :
    (⟨byte, c :: rest⟩ : Cursor).Passes (c :: cs) l := (Passes.cons byte c rest).trans h

/-- A cursor that something follows. -/
theorem Passes.exists_eq {c : Char} (h : k.Passes (c :: cs) l) : ∃ rest, k = ⟨k.byte, c :: rest⟩ := by
  obtain ⟨byte, rest⟩ := k
  obtain rfl : rest = c :: (cs ++ l.rest) := h.rest
  exact ⟨_, rfl⟩

/-! ### Tests -/

theorem expect_eq_some_iff : k.expect ps = some l ↔
    ∃ cs, k.Passes cs l ∧ List.Forall₂ (fun c p => p c = true) cs ps := by
  refine ⟨exists_passes_of_expect, ?_⟩
  rintro ⟨cs, hcs, hps⟩
  induction hps generalizing k with
  | nil => exact congrArg some hcs.eq_of_nil
  | @cons c p cs ps hc _ ih =>
    obtain ⟨rest, hk⟩ := hcs.exists_eq
    rw [hk] at hcs ⊢
    rw [expect]
    dsimp only
    rw [if_pos hc]
    exact ih hcs.of_cons.2

theorem one_eq_some_iff : k.one p = some l ↔ ∃ c, k.Passes [c] l ∧ p c = true := by
  refine ⟨exists_passes_of_one, ?_⟩
  rintro ⟨c, hc, hp⟩
  exact expect_eq_some_iff.2 ⟨[c], hc, .cons hp .nil⟩

/-- Characters are skipped up to the first that fails the test. -/
theorem skipWhile_eq (h : k.Passes cs l) (hcs : ∀ c ∈ cs, p c = true)
    (hl : ∀ c ∈ l.rest.head?, p c = false) : k.skipWhile p = l := by
  induction cs generalizing k with
  | nil =>
    obtain rfl := h.eq_of_nil
    obtain ⟨byte, rest⟩ := k
    cases rest with
    | nil => rfl
    | cons c rest => rw [skipWhile, skipFrom, if_neg (by simp [hl c rfl])]
  | cons c cs ih =>
    obtain ⟨rest, hk⟩ := h.exists_eq
    rw [hk] at h ⊢
    rw [skipWhile, skipFrom, if_pos (hcs c List.mem_cons_self)]
    exact ih h.of_cons.2 fun d hd => hcs d (List.mem_cons_of_mem c hd)

theorem exists_skipWhile (k : Cursor) (p : Char → Bool) : ∃ cs, k.Passes cs (k.skipWhile p) ∧
    (∀ c ∈ cs, p c = true) ∧ ∀ c ∈ (k.skipWhile p).rest.head?, p c = false := by
  obtain ⟨byte, rest⟩ := k
  induction rest generalizing byte with
  | nil => exact ⟨[], .nil _, nofun, nofun⟩
  | cons c rest ih =>
    rw [skipWhile, skipFrom]
    split
    · obtain ⟨cs, hcs, hp, hnext⟩ := ih (byte + c.utf8Size)
      exact ⟨c :: cs, hcs.to_cons, List.forall_mem_cons.2 ⟨‹_›, hp⟩, hnext⟩
    · rename_i hc
      refine ⟨[], .nil _, nofun, ?_⟩
      rintro _ ⟨⟩
      exact Bool.eq_false_iff.2 hc

theorem one_char_iff {c : Char} : k.one (· == c) = some l ↔ k.Passes [c] l := by
  rw [one_eq_some_iff]
  constructor
  · rintro ⟨d, hd, heq⟩
    exact eq_of_beq heq ▸ hd
  · exact fun h => ⟨c, h, beq_self_eq_true c⟩

theorem Passes.head?_eq {c : Char} (h : k.Passes (cs ++ c :: ds) l) :
    k.rest.head? = (cs ++ [c]).head? := by
  rw [h.rest]
  cases cs <;> rfl

/-- A longest run before a character that is not of the run. -/
theorem skipWhile_expect_iff {q : Char → Bool} (hq : ∀ c, q c = true → p c = false) :
    (k.skipWhile p).expect (q :: ps) = some l ↔ ∃ cs ds, k.Passes (cs ++ ds) l ∧
      (∀ c ∈ cs, p c = true) ∧ List.Forall₂ (fun c p => p c = true) ds (q :: ps) := by
  rw [expect_eq_some_iff]
  constructor
  · rintro ⟨ds, hds, hps⟩
    obtain ⟨cs, hcs, hp, -⟩ := k.exists_skipWhile p
    exact ⟨cs, ds, hcs.trans hds, hp, hps⟩
  · rintro ⟨cs, ds, hpasses, hp, hps⟩
    obtain ⟨m, hm, hlast⟩ := hpasses.divide
    cases hps with
    | @cons d _ ds _ hd hps =>
      have hnext : ∀ c ∈ m.rest.head?, p c = false := by
        rw [hlast.rest]
        rintro _ ⟨⟩
        exact hq d hd
      rw [skipWhile_eq hm hp hnext]
      exact ⟨d :: ds, hlast, .cons hd hps⟩

theorem skipWhile_one_iff {c : Char} (hc : p c = false) : (k.skipWhile p).one (· == c) = some l ↔
    ∃ cs, k.Passes (cs ++ [c]) l ∧ ∀ d ∈ cs, p d = true := by
  rw [one, skipWhile_expect_iff fun d hd => eq_of_beq hd ▸ hc]
  constructor
  · rintro ⟨cs, ds, hpasses, hp, hds⟩
    cases hds with
    | cons hd hnil =>
      cases hnil
      exact ⟨cs, eq_of_beq hd ▸ hpasses, hp⟩
  · rintro ⟨cs, hpasses, hp⟩
    exact ⟨cs, [c], hpasses, hp, .cons (beq_self_eq_true c) .nil⟩

/-! ### The first place -/

/-- A scan fails at the places from a cursor to before the end of so many characters. -/
def Fails (f : Cursor → Option α) (k : Cursor) (n : Nat) : Prop :=
  ∀ ds m, k.Passes ds m → ds.length < n → f m = none

theorem fails_cons_iff {f : Cursor → Option α} {byte n : Nat} {c : Char} {rest : List Char} :
    Fails f ⟨byte, c :: rest⟩ (n + 1) ↔
      f ⟨byte, c :: rest⟩ = none ∧ Fails f ⟨byte + c.utf8Size, rest⟩ n := by
  constructor
  · intro h
    refine ⟨h [] _ (.nil _) (Nat.succ_pos n), fun ds m hm hn => ?_⟩
    exact h (c :: ds) m hm.to_cons (Nat.succ_lt_succ hn)
  · rintro ⟨hfirst, hrest⟩ ds m hm hn
    cases ds with
    | nil => exact hm.eq_of_nil ▸ hfirst
    | cons d ds => exact hrest ds m hm.of_cons.2 (Nat.lt_of_succ_lt_succ hn)

/-- A scan is found at the first place where it succeeds. -/
theorem find_eq_some_iff {f : Cursor → Option α} : k.find f = some (l, a) ↔
    ∃ cs, k.Passes cs l ∧ f l = some a ∧ Fails f k cs.length := by
  obtain ⟨byte, rest⟩ := k
  show findFrom f byte rest = _ ↔ _
  induction rest generalizing byte with
  | nil =>
    rw [findFrom, Option.map_eq_some_iff]
    constructor
    · rintro ⟨b, hb, heq⟩
      cases heq
      exact ⟨[], .nil _, hb, fun _ _ _ h => absurd h (Nat.not_lt_zero _)⟩
    · rintro ⟨cs, hcs, hl, -⟩
      obtain rfl : cs = [] := (List.append_eq_nil_iff.1 hcs.rest.symm).1
      exact ⟨a, hcs.eq_of_nil ▸ hl, by rw [hcs.eq_of_nil]⟩
  | cons c rest ih =>
    rw [findFrom]
    split
    · rename_i b hb
      constructor
      · intro heq
        cases heq
        exact ⟨[], .nil _, hb, fun _ _ _ h => absurd h (Nat.not_lt_zero _)⟩
      · rintro ⟨cs, hcs, hl, hfails⟩
        cases cs with
        | nil =>
          obtain rfl := hcs.eq_of_nil
          rw [hb] at hl
          cases hl
          rfl
        | cons d cs =>
          cases hb.symm.trans (fails_cons_iff.1 hfails).1
    · rename_i hnone
      rw [ih]
      constructor
      · rintro ⟨cs, hcs, hl, hfails⟩
        exact ⟨c :: cs, hcs.to_cons, hl, fails_cons_iff.2 ⟨hnone, hfails⟩⟩
      · rintro ⟨cs, hcs, hl, hfails⟩
        cases cs with
        | nil =>
          obtain rfl := hcs.eq_of_nil
          cases hnone.symm.trans hl
        | cons d cs => exact ⟨cs, hcs.of_cons.2, hl, (fails_cons_iff.1 hfails).2⟩

/-- A scan is not found if it succeeds nowhere. -/
theorem find_eq_none_iff {f : Cursor → Option α} :
    k.find f = none ↔ ∀ cs l, k.Passes cs l → f l = none := by
  obtain ⟨byte, rest⟩ := k
  show findFrom f byte rest = _ ↔ _
  induction rest generalizing byte with
  | nil =>
    rw [findFrom, Option.map_eq_none_iff]
    refine ⟨fun h cs l hl => ?_, fun h => h [] _ (.nil _)⟩
    obtain rfl : cs = [] := (List.append_eq_nil_iff.1 hl.rest.symm).1
    exact hl.eq_of_nil ▸ h
  | cons c rest ih =>
    rw [findFrom]
    split
    · rename_i b hb
      refine iff_of_false (by simp) fun h => ?_
      cases hb.symm.trans (h [] _ (.nil _))
    · rename_i hnone
      rw [ih]
      refine ⟨fun h cs l hl => ?_, fun h cs l hl => h (c :: cs) l hl.to_cons⟩
      cases cs with
      | nil => exact hl.eq_of_nil ▸ hnone
      | cons d cs => exact h cs l hl.of_cons.2

theorem findLast_eq_none_iff {f : Cursor → Option α} :
    k.findLast f = none ↔ ∀ cs l, k.Passes cs l → f l = none := by
  obtain ⟨byte, rest⟩ := k
  show findLastFrom f byte rest = _ ↔ _
  induction rest generalizing byte with
  | nil =>
    rw [findLastFrom, Option.map_eq_none_iff]
    refine ⟨fun h cs l hl => ?_, fun h => h [] _ (.nil _)⟩
    obtain rfl : cs = [] := (List.append_eq_nil_iff.1 hl.rest.symm).1
    exact hl.eq_of_nil ▸ h
  | cons c rest ih =>
    rw [findLastFrom]
    cases hlater : findLastFrom f (byte + c.utf8Size) rest with
    | some found =>
      refine iff_of_false (by simp) fun h => ?_
      cases hlater.symm.trans ((ih _).2 fun cs l hl => h (c :: cs) l hl.to_cons)
    | none =>
      rw [Option.map_eq_none_iff]
      refine ⟨fun h cs l hl => ?_, fun h => h [] _ (.nil _)⟩
      cases cs with
      | nil => exact hl.eq_of_nil ▸ h
      | cons d cs => exact (ih _).1 hlater cs l hl.of_cons.2

/-- A scan is found at the last place where it succeeds. -/
theorem findLast_eq_some_iff {f : Cursor → Option α} : k.findLast f = some (l, a) ↔
    ∃ cs, k.Passes cs l ∧ f l = some a ∧ ∀ ds m, k.Passes ds m → cs.length < ds.length → f m = none := by
  obtain ⟨byte, rest⟩ := k
  show findLastFrom f byte rest = _ ↔ _
  induction rest generalizing byte l a with
  | nil =>
    have hnil : ∀ {ds m}, (⟨byte, []⟩ : Cursor).Passes ds m → ds = [] := fun h =>
      (List.append_eq_nil_iff.1 h.rest.symm).1
    rw [findLastFrom, Option.map_eq_some_iff]
    constructor
    · rintro ⟨b, hb, heq⟩
      cases heq
      refine ⟨[], .nil _, hb, fun ds m hm hlt => ?_⟩
      rw [hnil hm] at hlt
      cases hlt
    · rintro ⟨cs, hcs, hl, -⟩
      obtain rfl := hnil hcs
      exact ⟨a, hcs.eq_of_nil ▸ hl, by rw [hcs.eq_of_nil]⟩
  | cons c rest ih =>
    rw [findLastFrom]
    cases hlater : findLastFrom f (byte + c.utf8Size) rest with
    | some found =>
      obtain ⟨l', a'⟩ := found
      obtain ⟨cs', hcs', hl', hlast'⟩ := (ih _).1 hlater
      constructor
      · intro heq
        cases heq
        refine ⟨c :: cs', hcs'.to_cons, hl', fun ds m hm hlt => ?_⟩
        cases ds with
        | nil => cases hlt
        | cons d ds => exact hlast' ds m hm.of_cons.2 (Nat.lt_of_succ_lt_succ hlt)
      · rintro ⟨cs, hcs, hl, hlast⟩
        cases cs with
        | nil => cases hl' ▸ hlast _ _ hcs'.to_cons (Nat.succ_pos _)
        | cons d cs =>
          refine hlater.symm.trans ((ih _).2 ⟨cs, hcs.of_cons.2, hl, fun ds m hm hlt => ?_⟩)
          exact hlast (c :: ds) m hm.to_cons (Nat.succ_lt_succ hlt)
    | none =>
      have hnone := (findLast_eq_none_iff (k := ⟨byte + c.utf8Size, rest⟩)).1 hlater
      rw [Option.map_eq_some_iff]
      constructor
      · rintro ⟨b, hb, heq⟩
        cases heq
        refine ⟨[], .nil _, hb, fun ds m hm hlt => ?_⟩
        cases ds with
        | nil => cases hlt
        | cons d ds => exact hnone ds m hm.of_cons.2
      · rintro ⟨cs, hcs, hl, hlast⟩
        cases cs with
        | nil => exact ⟨a, hcs.eq_of_nil ▸ hl, by rw [hcs.eq_of_nil]⟩
        | cons d cs => cases hl ▸ hnone cs l hcs.of_cons.2

/-! ### All matches -/

/-- What is matched from left to right, where `R k a m` tells that there is a match of `a` between two
places: the first match, and what is matched after it. -/
inductive Scanned (R : Cursor → α → Cursor → Prop) : Cursor → List α → Prop
  | stop {k : Cursor} : (∀ cs l, k.Passes cs l → ∀ a m, ¬R l a m) → Scanned R k []
  | next {k l m : Cursor} {cs : List Char} {a : α} {as : List α} : k.Passes cs l → R l a m →
    (∀ ds n, k.Passes ds n → ds.length < cs.length → ∀ b o, ¬R n b o) → Scanned R m as →
      Scanned R k (a :: as)

section

variable {f : Cursor → Option (α × Cursor)} {R : Cursor → α → Cursor → Prop}

theorem all_of_none (h : ∀ cs l, k.Passes cs l → f l = none) : k.all f = [] := by
  obtain ⟨byte, rest⟩ := k
  show allFrom f byte rest = []
  induction rest generalizing byte with
  | nil => rw [allFrom, h [] _ (.nil _)]
  | cons c rest ih =>
    rw [allFrom, h [] _ (.nil _)]
    exact ih _ fun cs l hl => h (c :: cs) l hl.to_cons

theorem all_of_first (hl : k.Passes cs l) (hf : f l = some (a, m)) (hfails : Fails f k cs.length)
    (hshort : m.rest.length < l.rest.length) : k.all f = a :: m.all f := by
  obtain ⟨byte, rest⟩ := k
  show allFrom f byte rest = _
  induction cs generalizing byte rest with
  | nil =>
    obtain rfl := hl.eq_of_nil
    rw [allFrom.eq_def, hf]
    dsimp only
    rw [if_pos hshort]
    rfl
  | cons c cs ih =>
    cases rest with
    | nil => cases hl.rest
    | cons d rest =>
      rw [List.length_cons, fails_cons_iff] at hfails
      rw [allFrom.eq_def, hfails.1]
      exact ih _ _ hl.of_cons.2 hfails.2

/-- What is matched from left to right is what a scan gives that finds the matches, unless they are
empty. -/
theorem scanned_iff (hf : ∀ k a m, f k = some (a, m) ↔ R k a m)
    (hR : ∀ k a m, R k a m → ∃ c cs, k.Passes (c :: cs) m) {as : List α} :
    Scanned R k as ↔ as = k.all f := by
  have hnone : ∀ {l}, (∀ a m, ¬R l a m) ↔ f l = none := by
    intro l
    rw [Option.eq_none_iff_forall_ne_some, Prod.forall]
    exact forall₂_congr fun a m => (hf l a m).symm.not
  have hshort : ∀ {l a m}, R l a m → m.rest.length < l.rest.length := by
    intro l a m hl
    obtain ⟨c, cs, hcs⟩ := hR l a m hl
    have := congrArg List.length hcs.rest
    simp only [List.length_append, List.length_cons] at this
    omega
  constructor
  · intro h
    induction h with
    | stop h => exact (all_of_none fun cs l hl => hnone.1 (h cs l hl)).symm
    | next hl hR hfirst _ ih =>
      rw [ih]
      exact (all_of_first hl ((hf _ _ _).2 hR)
        (fun ds n hn hlt => hnone.1 (hfirst ds n hn hlt)) (hshort hR)).symm
  · rintro rfl
    induction hn : k.rest.length using Nat.strongRecOn generalizing k with
    | ind n ih =>
      cases hfind : k.find f with
      | none =>
        have hnowhere := find_eq_none_iff.1 hfind
        rw [all_of_none hnowhere]
        exact .stop fun cs l hl => hnone.2 (hnowhere cs l hl)
      | some found =>
        obtain ⟨l, a, m⟩ := found
        obtain ⟨cs, hl, hfl, hfails⟩ := find_eq_some_iff.1 hfind
        have hm := hshort ((hf _ _ _).1 hfl)
        have hrest := congrArg List.length hl.rest
        rw [List.length_append] at hrest
        rw [all_of_first hl hfl hfails hm]
        exact .next hl ((hf _ _ _).1 hfl) (fun ds n hn hlt => hnone.2 (hfails ds n hn hlt))
          (ih m.rest.length (by omega) rfl)

end

end AnySpans.Text.Cursor
