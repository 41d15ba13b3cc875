import AnySpans.Proofs.Matches
import AnySpans.Vue.Script

/-!
# What tags are

An opening tag is its name in either case, not followed by a further word character, and everything up
to the next `>` (`opening_iff`); a closing tag may have white space before its `>` (`closing_iff`).
-/

namespace AnySpans.Vue

open AnySpans.Text AnySpans.Text.Cursor

variable {name word : String} {cs attributes : List Char} {k l after : Cursor}

/-- Characters are the letters of a word, in either case. -/
def Spells (word : String) (cs : List Char) : Prop :=
  List.Forall₂ (fun c letter => folds letter c = true) cs word.toList

theorem expect_letters_iff : k.expect (letters word) = some l ↔ ∃ cs, k.Passes cs l ∧ Spells word cs := by
  rw [expect_eq_some_iff, letters]
  simp only [List.forall₂_map_right_iff]
  rfl

/-- A character that is none of the letters is not among them. -/
theorem Spells.not_mem {d : Char} (h : Spells word cs) (hd : ∀ letter ∈ word.toList, folds letter d = false) :
    d ∉ cs := by
  intro hmem
  obtain ⟨i, hi, rfl⟩ := List.getElem_of_mem hmem
  have hlt : i < word.toList.length := h.length_eq ▸ hi
  have := h.get hi hlt
  rw [List.get_eq_getElem, List.get_eq_getElem, hd _ (List.getElem_mem hlt)] at this
  cases this

theorem Spells.ne_nil (h : Spells word cs) (hword : word.toList ≠ []) : ∃ c ds, cs = c :: ds := by
  refine List.exists_cons_of_ne_nil ?_
  rintro rfl
  exact hword (List.forall₂_nil_left_iff.1 h)

/-- An opening tag with its attributes stands between two places. -/
def IsOpening (name : String) (k : Cursor) (attributes : List Char) (after : Cursor) : Prop :=
  ∃ letters, k.Passes (letters ++ attributes ++ ['>']) after ∧ Spells ("<" ++ name) letters ∧
    '>' ∉ attributes ∧ ∀ c ∈ attributes.head?, isWord c = false

/-- A closing tag stands between two places. -/
def IsClosing (name : String) (k after : Cursor) : Prop :=
  ∃ letters space, k.Passes (letters ++ space ++ ['>']) after ∧ Spells ("</" ++ name) letters ∧
    ∀ c ∈ space, isSpace c = true

theorem opening_iff : (∃ tag, opening name k = some tag ∧ tag.after = after ∧
    tag.attributesFrom.textTo tag.attributesTo = attributes) ↔ IsOpening name k attributes after := by
  constructor
  · rintro ⟨tag, h, rfl, rfl⟩
    obtain ⟨start, hstart, h⟩ := Option.bind_eq_some_iff.1 h
    dsimp only at h
    split at h
    · cases h
    rename_i hword
    obtain ⟨after, hafter, h⟩ := Option.bind_eq_some_iff.1 h
    cases h
    obtain ⟨letters, hletters, hspells⟩ := expect_letters_iff.1 hstart
    obtain ⟨attributes, hattributes, hp, -⟩ := start.exists_skipWhile (· != '>')
    have hend := one_char_iff.1 hafter
    dsimp only
    rw [hattributes.textTo_eq]
    refine ⟨letters, (hletters.trans hattributes).trans hend, hspells, fun hmem => ?_, fun c hc => ?_⟩
    · exact absurd (hp _ hmem) (by decide)
    · have hhead := Passes.head?_eq (hattributes.trans hend)
      cases attributes with
      | nil => cases hc
      | cons d ds =>
        obtain rfl : d = c := Option.some.inj hc
        rw [hhead] at hword
        exact Bool.eq_false_iff.2 hword
  · rintro ⟨letters, hpasses, hspells, hend, hword⟩
    rw [List.append_assoc] at hpasses
    obtain ⟨start, hstart, hrest⟩ := hpasses.divide
    obtain ⟨stop, hstop, hlast⟩ := hrest.divide
    have hhead := Passes.head?_eq hrest
    have hskip : start.skipWhile (· != '>') = stop := by
      refine skipWhile_eq hstop (fun c hc => ?_) fun c hc => ?_
      · rw [bne_iff_ne]
        rintro rfl
        exact hend hc
      · rw [hlast.rest] at hc
        cases hc
        decide
    have hnotWord : ¬start.rest.head?.any isWord = true := by
      rw [hhead]
      cases attributes with
      | nil => decide
      | cons d ds => simp [hword d rfl]
    refine ⟨⟨start, stop, after⟩, ?_, rfl, hstop.textTo_eq⟩
    rw [opening, expect_letters_iff.2 ⟨letters, hstart, hspells⟩]
    simp only [Option.bind_eq_bind, Option.bind_some]
    rw [if_neg hnotWord, hskip, one_char_iff.2 hlast]
    rfl

theorem closing_iff : closing name k = some after ↔ IsClosing name k after := by
  rw [closing]
  simp only [Option.bind_eq_bind, Option.bind_eq_some_iff, expect_letters_iff,
    skipWhile_one_iff (show isSpace '>' = false by decide)]
  constructor
  · rintro ⟨start, ⟨letters, hletters, hspells⟩, space, hspace, hp⟩
    exact ⟨letters, space, by rw [List.append_assoc]; exact hletters.trans hspace, hspells, hp⟩
  · rintro ⟨letters, space, hpasses, hspells, hp⟩
    rw [List.append_assoc] at hpasses
    obtain ⟨start, hstart, hrest⟩ := hpasses.divide
    exact ⟨start, ⟨letters, hstart, hspells⟩, space, hrest, hp⟩

theorem IsOpening.exists_passes {name : String} (h : IsOpening name k attributes after) :
    ∃ c cs, k.Passes (c :: cs) after := by
  obtain ⟨letters, hpasses, hspells, -⟩ := h
  obtain ⟨c, ds, rfl⟩ := hspells.ne_nil (by simp)
  exact ⟨c, _, hpasses⟩

theorem IsClosing.exists_passes {name : String} (h : IsClosing name k after) :
    ∃ c cs, k.Passes (c :: cs) after := by
  obtain ⟨letters, space, hpasses, hspells, -⟩ := h
  obtain ⟨c, ds, rfl⟩ := hspells.ne_nil (by simp)
  exact ⟨c, _, hpasses⟩

/-- An opening tag ends at the first `>` after it, so before any later opening tag ends. -/
theorem IsOpening.exists_passes_of_lt {name : String} {attributes' : List Char} {start' : Cursor}
    (hplain : ("<" ++ name).toList.all (!folds · '>') = true)
    (h : IsOpening name k attributes start) (hl : k.Passes cs l) (h' : IsOpening name l attributes' start') :
    ∃ ds, start.Passes ds start' := by
  obtain ⟨letters, hpasses, hspells, hend, -⟩ := h
  obtain ⟨letters', hpasses', -⟩ := h'
  have hall := hl.trans hpasses'
  by_cases hle : (letters ++ attributes ++ ['>']).length ≤ (cs ++ (letters' ++ attributes' ++ ['>'])).length
  · obtain ⟨ds, -, hds⟩ := hpasses.exists_of_le hall hle
    exact ⟨ds, hds⟩
  · -- else the later tag would end inside of the name and the attributes
    exfalso
    simp only [List.length_append, List.length_singleton] at hle
    obtain ⟨m, hm, -⟩ := hpasses.divide
    obtain ⟨ds, hds, -⟩ := hall.exists_of_le hm (by simp; omega)
    have hmem : '>' ∈ letters ++ attributes := by
      rw [hds]
      simp
    refine (List.mem_append.1 hmem).elim (hspells.not_mem fun letter hletter => ?_) hend
    simpa only [Bool.not_eq_true'] using List.all_eq_true.1 hplain letter hletter

/-- What comes after an opening tag comes after any earlier one. -/
theorem IsOpening.exists_passes_after {name : String} {attributes' inner ds : List Char}
    {start' stop n : Cursor} (hplain : ("<" ++ name).toList.all (!folds · '>') = true)
    (h : IsOpening name n attributes' start') (hn : k.Passes ds n) (hl : k.Passes cs l)
    (hlt : ds.length < cs.length) (h' : IsOpening name l attributes start)
    (hinner : start.Passes inner stop) : ∃ cs, start'.Passes cs stop := by
  obtain ⟨es, -, hes⟩ := hn.exists_of_le hl (Nat.le_of_lt hlt)
  obtain ⟨gap, hgap⟩ := h.exists_passes_of_lt hplain hes h'
  exact ⟨_, hgap.trans hinner⟩

end AnySpans.Vue
