import AnySpans.Json.Reader
import AnySpans.Proofs.Digits

/-!
# Numbers are read back

A `Numeral` is read back from its text (`readNumeral_write`).  The texts of integers and of decimals
are such texts, and these numerals stand for just the numbers that were written: with all their digits
(`exists_numeral`), and an integer of 64 bits also as it is read by the program (`value?_ofInt`).
-/

namespace AnySpans.Json

open AnySpans.Number

/-! ### Texts of numerals -/

/-- The text of the digits after a point. -/
def writeFraction : Option (List Char) → List Char
  | none => []
  | some ds => '.' :: ds

/-- The text of an exponent. -/
def writeScale : Option Int → List Char
  | none => []
  | some e => 'e' :: (toString e).toList

namespace Numeral

/-- The text of a numeral. -/
def write (n : Numeral) : List Char :=
  (if n.negative then ['-'] else []) ++ n.whole ++ writeFraction n.fraction ++ writeScale n.exponent

/-- There are digits in front, without needless zeros, and digits after the point if there is one. -/
structure Proper (n : Numeral) : Prop where
  whole_ne : n.whole ≠ []
  digit : ∀ c ∈ n.whole, c.isDigit = true
  first : n.whole.length ≤ 1 ∨ n.whole.head? ≠ some '0'
  fraction : ∀ ds, n.fraction = some ds → ds ≠ [] ∧ ∀ c ∈ ds, c.isDigit = true

end Numeral

/-- What can follow a number: not what would be a part of it. -/
def Follows (rest : List Char) : Prop :=
  ∀ c ∈ rest.head?, c.isDigit = false ∧ c ≠ '.' ∧ c ≠ 'e' ∧ c ≠ 'E'

variable {ds rest : List Char}

theorem takeWhile_isDigit (hds : ∀ c ∈ ds, c.isDigit = true)
    (hrest : ∀ c ∈ rest.head?, c.isDigit = false) : (ds ++ rest).takeWhile Char.isDigit = ds := by
  rw [List.takeWhile_append_of_pos hds]
  cases rest with
  | nil => simp
  | cons c cs => rw [List.takeWhile_cons_of_neg (by simp [hrest c rfl]), List.append_nil]

theorem ne_of_isDigit {c d : Char} (hc : c.isDigit = true) (hd : d.isDigit = false) : c ≠ d := by
  rintro rfl
  rw [hc] at hd
  cases hd

theorem readExponent_toString (e : Int) (hrest : ∀ c ∈ rest.head?, c.isDigit = false) :
    readExponent ((toString e).toList ++ rest) = some (e, rest) := by
  have hdigit : ∀ c ∈ digitsOf e.natAbs, c.isDigit = true := fun _ => isDigit_of_mem_digitsOf
  have hdigits := takeWhile_isDigit hdigit hrest
  have hne := digitsOf_ne_nil e.natAbs
  rw [toList_toString_int]
  by_cases he : e < 0
  · simp only [he, if_true, readExponent, List.cons_append, List.nil_append, hdigits, if_neg hne,
      valueOf_digitsOf, List.drop_left]
    congr 2
    omega
  · have hsign : readExponent (digitsOf e.natAbs ++ rest) =
        some ((valueOf 10 (digitsOf e.natAbs) : Int), rest) := by
      obtain ⟨d, ds, hds⟩ := List.exists_cons_of_ne_nil hne
      have hd : d.isDigit = true := isDigit_of_mem_digitsOf (hds ▸ List.mem_cons_self)
      have hplus := ne_of_isDigit hd (d := '+') rfl
      have hminus := ne_of_isDigit hd (d := '-') rfl
      rw [hds, List.cons_append] at hdigits ⊢
      simp [readExponent, hplus, hminus, hdigits]
    rw [if_neg he, List.nil_append, hsign, valueOf_digitsOf]
    congr 2
    omega

/-- Where neither a digit nor a point follows, no digits after a point are read. -/
theorem readFraction_write {f : Option (List Char)}
    (hf : ∀ ds, f = some ds → ds ≠ [] ∧ ∀ c ∈ ds, c.isDigit = true)
    (hrest : ∀ c ∈ rest.head?, c.isDigit = false ∧ c ≠ '.') :
    readFraction (writeFraction f ++ rest) = some (f, rest) := by
  cases f with
  | none =>
    cases rest with
    | nil => rfl
    | cons c cs =>
      have := (hrest c rfl).2
      simp [writeFraction, readFraction, this]
  | some ds =>
    obtain ⟨hne, hds⟩ := hf ds rfl
    have hdigits := takeWhile_isDigit hds fun c hc => (hrest c hc).1
    simp [writeFraction, readFraction, hdigits, hne]

theorem readScale_write (e? : Option Int) (hrest : Follows rest) :
    readScale (writeScale e? ++ rest) = some (e?, rest) := by
  cases e? with
  | none =>
    cases rest with
    | nil => rfl
    | cons c cs =>
      obtain ⟨-, -, he, hE⟩ := hrest c rfl
      simp [writeScale, readScale, he, hE]
  | some e =>
    have hread := readExponent_toString e fun c hc => (hrest c hc).1
    rw [writeScale, List.cons_append, readScale, if_pos (.inl rfl), hread]
    rfl

theorem Follows.scale (hrest : Follows rest) (e? : Option Int) :
    ∀ c ∈ (writeScale e? ++ rest).head?, c.isDigit = false ∧ c ≠ '.' := by
  intro c hc
  cases e? with
  | none => exact ⟨(hrest c hc).1, (hrest c hc).2.1⟩
  | some e =>
    obtain rfl : 'e' = c := by simpa [writeScale] using hc
    decide

theorem Follows.fraction (hrest : Follows rest) (f : Option (List Char)) (e? : Option Int) :
    ∀ c ∈ (writeFraction f ++ (writeScale e? ++ rest)).head?, c.isDigit = false := by
  intro c hc
  cases f with
  | none => exact (hrest.scale e? c hc).1
  | some ds =>
    obtain rfl : '.' = c := by simpa [writeFraction] using hc
    decide

namespace Numeral

/-- A numeral is read back from its text. -/
theorem readNumeral_write {n : Numeral} (hn : n.Proper) (hrest : Follows rest) :
    readNumeral (n.write ++ rest) = some (n, rest) := by
  obtain ⟨negative, whole, fraction, exponent⟩ := n
  obtain ⟨hne, hdigit, hfirst, hfraction⟩ := hn
  dsimp only at hne hdigit hfirst hfraction
  have hunsigned : ∀ s, readUnsigned s (whole ++ (writeFraction fraction ++ (writeScale exponent ++ rest))) =
      some (⟨s, whole, fraction, exponent⟩, rest) := by
    intro s
    have hwhole := takeWhile_isDigit hdigit (hrest.fraction fraction exponent)
    have hplain : ¬(whole = [] ∨ (whole.length > 1 ∧ whole.head? = some '0')) := by
      rintro (h | ⟨hlong, hzero⟩)
      · exact hne h
      · exact hfirst.elim (fun h => by omega) fun h => h hzero
    simp only [readUnsigned, hwhole, if_neg hplain, List.drop_left]
    rw [readFraction_write hfraction (hrest.scale exponent)]
    simp [readScale_write exponent hrest]
  cases negative with
  | true => simpa [write, readNumeral, List.append_assoc] using hunsigned true
  | false =>
    obtain ⟨d, ds, rfl⟩ := List.exists_cons_of_ne_nil hne
    have hminus := ne_of_isDigit (hdigit d List.mem_cons_self) (d := '-') rfl
    simpa [write, readNumeral, List.append_assoc, hminus] using hunsigned false

/-! ### Integers -/

/-- The numeral of an integer. -/
def ofInt (n : Int) : Numeral := ⟨decide (n < 0), digitsOf n.natAbs, none, none⟩

theorem proper_ofInt (n : Int) : (ofInt n).Proper where
  whole_ne := digitsOf_ne_nil _
  digit _ := isDigit_of_mem_digitsOf
  first := by
    show (digitsOf n.natAbs).length ≤ 1 ∨ (digitsOf n.natAbs).head? ≠ some '0'
    obtain h | h := Nat.eq_zero_or_pos n.natAbs
    · rw [h]
      exact .inl (by decide)
    · exact .inr (head?_digitsOf h)
  fraction _ h := by cases h

theorem write_ofInt (n : Int) : (ofInt n).write = (toString n).toList := by
  rw [toList_toString_int]
  by_cases h : n < 0 <;> simp [ofInt, write, writeFraction, writeScale, h]

theorem appendDigits_eq {ds : List Char} (hds : ∀ c ∈ ds, c.isDigit = true) {m : Nat}
    (h : m * 10 ^ ds.length + valueOf 10 ds ≤ significandLimit) :
    appendDigits m ds = (m * 10 ^ ds.length + valueOf 10 ds, ds.length) := by
  induction ds generalizing m with
  | nil => simp [appendDigits, valueOf]
  | cons d ds ih =>
    have hd := hds d List.mem_cons_self
    have hvalue : valueOf 10 (d :: ds) = (d.toNat - 48) * 10 ^ ds.length + valueOf 10 ds := by
      rw [← List.singleton_append, valueOf_append]
      simp [valueOf, hd]
    have hnext : m * 10 ^ (ds.length + 1) + (d.toNat - 48) * 10 ^ ds.length =
        (m * 10 + (d.toNat - 48)) * 10 ^ ds.length := by ring
    rw [List.length_cons, hvalue, ← Nat.add_assoc, hnext] at h ⊢
    have hle : m * 10 + (d.toNat - 48) ≤ significandLimit := by
      refine Nat.le_trans ?_ (Nat.le_trans (Nat.le_add_right _ _) h)
      exact Nat.le_mul_of_pos_right _ (Nat.pow_pos (by decide))
    rw [appendDigits]
    dsimp only
    rw [if_pos hle, ih (fun c hc => hds c (List.mem_cons_of_mem d hc)) h]

/-- An integer of 64 bits, with a sign or without, is what the program reads in its text. -/
theorem value?_ofInt {n : Int} (hlow : -2 ^ 63 ≤ n) (hhigh : n < 2 ^ 64) :
    (ofInt n).value? = some (.integer n) := by
  have hlimit : 0 * 10 ^ (digitsOf n.natAbs).length + valueOf 10 (digitsOf n.natAbs) ≤
      significandLimit := by
    rw [valueOf_digitsOf, significandLimit]
    omega
  have hdigits := appendDigits_eq (fun _ => isDigit_of_mem_digitsOf) hlimit
  rw [valueOf_digitsOf, Nat.zero_mul, Nat.zero_add] at hdigits
  have hinteger : integerOf (decide (n < 0)) n.natAbs = some (.integer n) := by
    by_cases h : n < 0
    · have hpos : 0 < n.natAbs ∧ n.natAbs ≤ Nat.pow 2 63 := by
        rw [Nat.pow_eq]
        omega
      have hneg : -(n.natAbs : Int) = n := by omega
      simp only [integerOf, h, decide_true, Bool.not_true, Bool.false_eq_true, if_false, if_pos hpos,
        hneg]
    · have hnat : (n.natAbs : Int) = n := by omega
      simp [integerOf, h, hnat]
  simp [value?, ofInt, hdigits, hinteger]

/-! ### Numbers with all their digits -/

/-- The number that is written, with all its digits. -/
def exact (n : Numeral) : Value :=
  let m := valueOf 10 (n.whole ++ n.fraction.getD [])
  if n.fraction = none ∧ n.exponent = none then .integer (if n.negative then -m else m)
  else .real (Decimal.trimmed ⟨n.negative, m, n.exponent.getD 0 - (n.fraction.getD []).length⟩)

theorem exact_ofInt (n : Int) : (ofInt n).exact = .integer n := by
  have hvalue : (if n < 0 then -(n.natAbs : Int) else n.natAbs) = n := by split <;> omega
  simpa only [exact, ofInt, decide_eq_true_eq, valueOf_digitsOf, Option.getD_none, List.append_nil,
    and_self, if_true] using congrArg Value.integer hvalue

theorem isDigit_of_mem_zeros {k : Nat} {c : Char} (h : c ∈ List.replicate k '0') :
    c.isDigit = true := by
  obtain ⟨-, rfl⟩ := List.mem_replicate.1 h
  rfl

/-- The text of a number in full, by where its point stands. -/
theorem toList_positional (d : Decimal) {ds : List Char} {point : Int} (hds : digitsOf d.digits = ds)
    (hpoint : d.exponent + ds.length = point) :
    d.positional.toList = d.sign ++
      if d.digits = 0 then ['0', '.', '0']
      else if point ≤ 0 then '0' :: '.' :: (List.replicate point.natAbs '0' ++ ds)
      else if point < ds.length then ds.take point.natAbs ++ '.' :: ds.drop point.natAbs
      else ds ++ List.replicate (point.natAbs - ds.length) '0' ++ ['.', '0'] := by
  subst hds hpoint
  exact String.toList_ofList

/-- A decimal that is written in full is a numeral. -/
theorem exists_positional (d : Decimal) :
    ∃ n : Numeral, n.Proper ∧ n.write = d.positional.toList ∧ n.exact = .real d.trimmed := by
  obtain ⟨negative, m, e⟩ := d
  have hvalue := valueOf_digitsOf m
  have hdigit : ∀ c ∈ digitsOf m, c.isDigit = true := fun _ => isDigit_of_mem_digitsOf
  have hne := digitsOf_ne_nil m
  generalize hds : digitsOf m = ds at hvalue hdigit hne
  generalize hpoint : e + ds.length = point
  rw [toList_positional ⟨negative, m, e⟩ hds hpoint]
  have hlength : 0 < ds.length := List.length_pos_iff.2 hne
  by_cases hzero : m = 0
  · refine ⟨⟨negative, ['0'], some ['0'], none⟩, ⟨by simp, by simp, .inl (by simp), ?_⟩, ?_, ?_⟩
    · rintro _ ⟨⟩
      exact ⟨List.cons_ne_nil _ _, fun _ => isDigit_of_mem_zeros (k := 1)⟩
    · simp [hzero, write, writeFraction, writeScale, Decimal.sign]
    · simp [exact, hzero, valueOf, Decimal.trimmed]
  have hfirst : ds.head? ≠ some '0' := hds ▸ head?_digitsOf (Nat.pos_of_ne_zero hzero)
  rw [if_neg hzero]
  by_cases hsmall : point ≤ 0
  · -- the point stands before the digits
    have hdigits : valueOf 10 (['0'] ++ (List.replicate point.natAbs '0' ++ ds)) = m := by
      rw [valueOf_append, valueOf_append, valueOf_replicate_zero, hvalue]
      simp [valueOf]
    refine ⟨⟨negative, ['0'], some (List.replicate point.natAbs '0' ++ ds), none⟩,
      ⟨by simp, by simp, .inl (by simp), ?_⟩, ?_, ?_⟩
    · rintro _ ⟨⟩
      refine ⟨by simp [hne], fun c hc => ?_⟩
      exact (List.mem_append.1 hc).elim isDigit_of_mem_zeros (hdigit c)
    · rw [if_pos hsmall]
      simp [write, writeFraction, writeScale, Decimal.sign]
    · have hscale : 0 - ((List.replicate point.natAbs '0' ++ ds).length : Int) = e := by
        rw [List.length_append, List.length_replicate]
        omega
      simp only [exact, Option.getD_some, Option.getD_none, hdigits, hscale]
      simp
  rw [if_neg hsmall]
  by_cases hinside : point < ds.length
  · -- the point stands between the digits
    have hbound : 0 < point.natAbs ∧ point.natAbs < ds.length := by omega
    refine ⟨⟨negative, ds.take point.natAbs, some (ds.drop point.natAbs), none⟩,
      ⟨?_, fun c hc => hdigit c (List.mem_of_mem_take hc), .inr ?_, ?_⟩, ?_, ?_⟩
    · simp [hne]
      omega
    · show (ds.take point.natAbs).head? ≠ some '0'
      rwa [List.head?_take, if_neg (by omega)]
    · rintro _ ⟨⟩
      refine ⟨by simp; omega, fun c hc => hdigit c (List.mem_of_mem_drop hc)⟩
    · rw [if_pos hinside]
      simp [write, writeFraction, writeScale, Decimal.sign]
    · have hscale : 0 - ((ds.drop point.natAbs).length : Int) = e := by
        simp
        omega
      simp only [exact, Option.getD_some, Option.getD_none, List.take_append_drop, hvalue, hscale]
      simp
  · -- the point stands after the digits
    rw [if_neg hinside]
    obtain ⟨k, hk⟩ : ∃ k, point.natAbs - ds.length = k := ⟨_, rfl⟩
    rw [hk]
    have hdigits : valueOf 10 (ds ++ List.replicate k '0' ++ ['0']) = m * 10 ^ (k + 1) := by
      rw [List.append_assoc, ← List.replicate_succ', valueOf_append, valueOf_replicate_zero, hvalue,
        List.length_replicate, Nat.add_zero]
    refine ⟨⟨negative, ds ++ List.replicate k '0', some ['0'], none⟩, ⟨?_, ?_, .inr ?_, ?_⟩, ?_, ?_⟩
    · simp [hne]
    · exact fun c hc => (List.mem_append.1 hc).elim (hdigit c) isDigit_of_mem_zeros
    · show (ds ++ List.replicate k '0').head? ≠ some '0'
      rwa [List.head?_append_of_ne_nil _ hne]
    · rintro _ ⟨⟩
      exact ⟨List.cons_ne_nil _ _, fun _ => isDigit_of_mem_zeros (k := 1)⟩
    · simp [write, writeFraction, writeScale, Decimal.sign]
    · have hscale : 0 - ((['0'].length : Nat) : Int) + (k + 1 : Nat) = e := by
        simp
        omega
      simp only [exact, Option.getD_some, Option.getD_none, hdigits]
      rw [if_neg (by simp), Decimal.trimmed_mul_pow, hscale]

/-- The text of a number, by its digits. -/
theorem compact_eq {d : Decimal} {c : Char} {cs : List Char} (hds : digitsOf d.digits = c :: cs) :
    d.compact =
      if d.digits = 0 ∨ (-5 < d.exponent + (c :: cs).length ∧ d.exponent + (c :: cs).length ≤ 16) then
        d.positional
      else
        String.ofList (d.sign ++ c :: writeFraction (if cs = [] then none else some cs)) ++ "e" ++
          toString (d.exponent + ((c :: cs).length : Int) - 1) := by
  have hpointed : d.pointed = (c :: cs, d.exponent + (c :: cs).length) := by rw [Decimal.pointed, hds]
  rw [Decimal.compact, hpointed]
  cases cs <;> rfl

/-- The text of a decimal is that of a numeral. -/
theorem exists_numeral (d : Decimal) :
    ∃ n : Numeral, n.Proper ∧ n.write = d.compact.toList ∧ n.exact = .real d.trimmed := by
  obtain ⟨c, cs, hds⟩ := List.exists_cons_of_ne_nil (digitsOf_ne_nil d.digits)
  rw [compact_eq hds]
  split
  · exact exists_positional d
  have hdigit : ∀ a ∈ c :: cs, a.isDigit = true := fun _ ha => isDigit_of_mem_digitsOf (hds ▸ ha)
  have hvalue : valueOf 10 (c :: cs) = d.digits := hds ▸ valueOf_digitsOf d.digits
  refine ⟨⟨d.negative, [c], if cs = [] then none else some cs, some (d.exponent + cs.length)⟩,
    ⟨by simp, ?_, .inl (by simp), ?_⟩, ?_, ?_⟩
  · simpa using hdigit c List.mem_cons_self
  · intro ds hsome
    obtain ⟨hne, rfl⟩ : cs ≠ [] ∧ cs = ds := by simpa using hsome
    exact ⟨hne, fun a ha => hdigit a (List.mem_cons_of_mem c ha)⟩
  · have hpoint : d.exponent + ((c :: cs).length : Int) - 1 = d.exponent + cs.length := by
      simp
      omega
    rw [hpoint]
    simp [write, Decimal.sign, writeScale]
  · have hfraction : (if cs = [] then none else some cs).getD [] = cs := by
      by_cases hcs : cs = [] <;> simp [hcs]
    simp only [exact, hfraction, List.singleton_append, hvalue]
    simp

end Numeral

end AnySpans.Json
