import AnySpans.Json.Writer
import AnySpans.Proofs.Numerals

/-!
# Values are read back

What `Value.write` writes is read back, however the numbers of a text are taken, as long as the
numbers of the value are (`readWithin_write`): by a reader that keeps all digits of a number and nests
as deep as the text does (`readExactly_write`), and by the program where integers have 64 bits and
lists and objects are not nested too deep (`read_write`).
-/

namespace AnySpans.Json

open AnySpans.Number

/-! ### Strings -/

section

variable {cs s rest : List Char} {fuel : Nat}

theorem hexValue?_hexDigit : ∀ n < 16, hexValue? (hexDigit n) = some n := by decide

theorem readEscape_control {c : Char} (h : c.toNat < 0x20) (cs : List Char) :
    readEscape ('u' :: '0' :: '0' :: hexDigit (c.toNat / 16) :: hexDigit (c.toNat % 16) :: cs) =
      some (c, cs) := by
  have hhigh := hexValue?_hexDigit (c.toNat / 16) (by omega)
  have hlow := hexValue?_hexDigit (c.toNat % 16) (by omega)
  have hzero : hexValue? '0' = some 0 := rfl
  have hcode : c.toNat / 16 * 16 + c.toNat % 16 = c.toNat := Nat.div_add_mod' _ _
  simp [readEscape, readCode, readUnit, hzero, hhigh, hlow, hcode, Char.ofNat_toNat]
  omega

/-- A character is read back from what is written for it. -/
theorem readString_writeChar (c : Char) (h : readString fuel cs = some (s, rest)) :
    readString (fuel + 1) (writeChar c ++ cs) = some (c :: s, rest) := by
  unfold writeChar
  split
  case h_8 hquote hbackslash _ _ _ _ _ =>
    split
    · rename_i hcontrol
      simp [readString, readEscape_control hcontrol, h]
    · rename_i hplain
      simp only [List.cons_append, List.nil_append, readString, if_neg hquote, if_neg hbackslash,
        if_neg hplain, h]
      rfl
  all_goals simp [readString, readEscape, h]

theorem readString_flatMap (s rest : List Char) (h : s.length < fuel) :
    readString fuel (s.flatMap writeChar ++ '"' :: rest) = some (s, rest) := by
  induction s generalizing fuel with
  | nil =>
    obtain ⟨fuel, rfl⟩ := Nat.exists_eq_add_of_lt h
    simp [readString]
  | cons c s ih =>
    obtain ⟨fuel, rfl⟩ := Nat.exists_eq_add_of_lt h
    rw [List.flatMap_cons, List.append_assoc]
    exact readString_writeChar c (ih (by simp; omega))

theorem length_le_flatMap (s : List Char) : s.length ≤ (s.flatMap writeChar).length := by
  induction s with
  | nil => exact Nat.le_refl 0
  | cons c s ih =>
    have hpos : 0 < (writeChar c).length := by
      unfold writeChar
      split <;> try exact Nat.succ_pos _
      split <;> exact Nat.succ_pos _
    rw [List.flatMap_cons, List.length_append, List.length_cons]
    omega

/-- A string is read back after its first quote. -/
theorem readString_writeString (s : String) (rest : List Char) :
    readString ((s.toList.flatMap writeChar ++ '"' :: rest).length + 1)
      (s.toList.flatMap writeChar ++ '"' :: rest) = some (s.toList, rest) := by
  refine readString_flatMap _ _ ?_
  have := length_le_flatMap s.toList
  simp only [List.length_append]
  omega

end

/-! ### Numbers and nesting -/

mutual

/-- The numbers in a value. -/
def Value.numbers : Value → List Value
  | .integer n => [.integer n]
  | .real d => [.real d]
  | .list items => itemNumbers items
  | .object members => memberNumbers members
  | _ => []

/-- The numbers in the items of a list. -/
def itemNumbers : List Value → List Value
  | [] => []
  | v :: vs => v.numbers ++ itemNumbers vs

/-- The numbers in the members of an object. -/
def memberNumbers : List (String × Value) → List Value
  | [] => []
  | (_, v) :: ms => v.numbers ++ memberNumbers ms

end

mutual

/-- How deep lists and objects are nested in a value. -/
def Value.depth : Value → Nat
  | .list items => itemDepth items + 1
  | .object members => memberDepth members + 1
  | _ => 0

/-- How deep lists and objects are nested in the items of a list. -/
def itemDepth : List Value → Nat
  | [] => 0
  | v :: vs => max v.depth (itemDepth vs)

/-- How deep lists and objects are nested in the members of an object. -/
def memberDepth : List (String × Value) → Nat
  | [] => 0
  | (_, v) :: ms => max v.depth (memberDepth ms)

end

/-- A property of all values holds of a list if it holds of its items, and of an object if it holds of
the values of its members. -/
theorem Value.induction {P : Value → Prop} (null : P .null) (boolean : ∀ b, P (.boolean b))
    (integer : ∀ n, P (.integer n)) (real : ∀ d, P (.real d)) (string : ∀ s, P (.string s))
    (list : ∀ items, (∀ v ∈ items, P v) → P (.list items))
    (object : ∀ members, (∀ m ∈ members, P m.2) → P (.object members)) (v : Value) : P v :=
  @Value.rec P (fun items => ∀ v ∈ items, P v) (fun members => ∀ m ∈ members, P m.2) (fun m => P m.2)
    null boolean integer real string (fun items => list items) (fun members => object members)
    (fun _ h => nomatch h) (fun _ _ hv hvs => List.forall_mem_cons.2 ⟨hv, hvs⟩)
    (fun _ h => nomatch h) (fun _ _ hm hms => List.forall_mem_cons.2 ⟨hm, hms⟩)
    (fun _ _ hv => hv) v

section

variable {u v : Value} {items : List Value} {members : List (String × Value)} {k : Nat}

theorem mem_itemNumbers : u ∈ itemNumbers items ↔ ∃ v ∈ items, u ∈ v.numbers := by
  induction items with
  | nil => simp [itemNumbers]
  | cons v vs ih => simp [itemNumbers, ih]

theorem mem_memberNumbers : u ∈ memberNumbers members ↔ ∃ m ∈ members, u ∈ m.2.numbers := by
  induction members with
  | nil => simp [memberNumbers]
  | cons m ms ih => simp [memberNumbers, ih]

theorem itemDepth_le_iff : itemDepth items ≤ k ↔ ∀ v ∈ items, v.depth ≤ k := by
  induction items with
  | nil => simp [itemDepth]
  | cons v vs ih => simp [itemDepth, ih]

theorem memberDepth_le_iff : memberDepth members ≤ k ↔ ∀ m ∈ members, m.2.depth ≤ k := by
  induction members with
  | nil => simp [memberDepth]
  | cons m ms ih => simp [memberDepth, ih]

theorem of_mem_numbers : u ∈ v.numbers → (∃ n, u = .integer n) ∨ ∃ d, u = .real d := by
  induction v using Value.induction with
  | integer n => exact fun h => .inl ⟨n, List.mem_singleton.1 h⟩
  | real d => exact fun h => .inr ⟨d, List.mem_singleton.1 h⟩
  | list items ih =>
    intro h
    obtain ⟨v, hv, hu⟩ := mem_itemNumbers.1 h
    exact ih v hv hu
  | object members ih =>
    intro h
    obtain ⟨m, hm, hu⟩ := mem_memberNumbers.1 h
    exact ih m hm hu
  | _ => exact fun h => nomatch h

end

/-! ### Values -/

section

variable {number : Numeral → Option Value} {v : Value} {fuel levels : Nat} {rest : List Char}

/-- A number is that of the numeral that is written for it. -/
def IsRead (number : Numeral → Option Value) (v : Value) : Prop :=
  ∃ n : Numeral, n.Proper ∧ n.write = v.write ∧ number n = some v

theorem follows_comma : Follows (',' :: rest) := by
  rintro _ ⟨⟩
  decide

theorem follows_bracket : Follows (']' :: rest) := by
  rintro _ ⟨⟩
  decide

theorem follows_brace : Follows ('\x7d' :: rest) := by
  rintro _ ⟨⟩
  decide

/-- The first character of a numeral. -/
theorem exists_head_write {n : Numeral} (hn : n.Proper) :
    ∃ c cs, n.write = c :: cs ∧ (c = '-' ∨ c.isDigit = true) := by
  obtain ⟨d, ds, hds⟩ := List.exists_cons_of_ne_nil hn.whole_ne
  have hd := hn.digit d (hds ▸ List.mem_cons_self)
  obtain ⟨negative, whole, fraction, exponent⟩ := n
  obtain rfl : whole = d :: ds := hds
  cases negative with
  | true => exact ⟨'-', _, rfl, .inl rfl⟩
  | false => exact ⟨d, _, rfl, .inr hd⟩

theorem ne_of_head {c d : Char} (hc : c = '-' ∨ c.isDigit = true) (hd : d.isDigit = false)
    (hminus : d ≠ '-') : c ≠ d := by
  rintro rfl
  exact hc.elim hminus (by simp [hd])

theorem isBlankChar_of_head {c : Char} (hc : c = '-' ∨ c.isDigit = true) : isBlankChar c = false := by
  simp [isBlankChar, ne_of_head hc (d := ' ') rfl (by decide), ne_of_head hc (d := '\n') rfl (by decide),
    ne_of_head hc (d := '\t') rfl (by decide), ne_of_head hc (d := '\r') rfl (by decide)]

theorem readValue_numeral {n : Numeral} (hn : n.Proper) (hv : number n = some v)
    (hrest : Follows rest) :
    readValue number (fuel + 1) levels (n.write ++ rest) = some (v, rest) := by
  have hread := Numeral.readNumeral_write hn hrest
  obtain ⟨c, cs, hwrite, hc⟩ := exists_head_write hn
  rw [hwrite, List.cons_append] at hread ⊢
  rw [readValue, skipBlank, List.dropWhile_cons_of_neg (by simp [isBlankChar_of_head hc])]
  split
  case h_7 => simp [hread, hv]
  all_goals
    rename_i heq
    injection heq with h
    exact absurd h (ne_of_head hc rfl (by decide))

/-- What can stand at the start of a value: neither a blank nor the end of a list. -/
theorem exists_head_value (hv : ∀ u ∈ v.numbers, IsRead number u) :
    ∃ c cs, v.write = c :: cs ∧ isBlankChar c = false ∧ c ≠ ']' := by
  have hnumber : ∀ u, IsRead number u →
      ∃ c cs, u.write = c :: cs ∧ isBlankChar c = false ∧ c ≠ ']' := by
    rintro u ⟨n, hn, hwrite, -⟩
    obtain ⟨c, cs, hhead, hc⟩ := exists_head_write hn
    exact ⟨c, cs, hwrite ▸ hhead, isBlankChar_of_head hc, ne_of_head hc rfl (by decide)⟩
  cases v with
  | integer n => exact hnumber _ (hv _ List.mem_cons_self)
  | real d => exact hnumber _ (hv _ List.mem_cons_self)
  | boolean b => cases b <;> exact ⟨_, _, rfl, by decide, by decide⟩
  | _ => exact ⟨_, _, rfl, by decide, by decide⟩

theorem writeItems_cons_cons (v v' : Value) (vs : List Value) :
    writeItems (v :: v' :: vs) = v.write ++ ',' :: writeItems (v' :: vs) := rfl

/-- The first item of a list stands where its items start. -/
theorem exists_head_items {v : Value} (vs : List Value) (hv : ∀ u ∈ v.numbers, IsRead number u) :
    ∃ c cs, writeItems (v :: vs) = c :: cs ∧ isBlankChar c = false ∧ c ≠ ']' := by
  obtain ⟨c, cs, hhead, hc⟩ := exists_head_value hv
  cases vs with
  | nil => exact ⟨c, cs, hhead, hc⟩
  | cons v' vs => exact ⟨c, _, by rw [writeItems_cons_cons, hhead, List.cons_append], hc⟩

theorem exists_head_members (m : String × Value) (ms : List (String × Value)) :
    ∃ cs, writeMembers (m :: ms) = '"' :: cs := by
  obtain ⟨key, v⟩ := m
  cases ms <;> exact ⟨_, rfl⟩

theorem readValue_string (s : String) :
    readValue number (fuel + 1) levels ((Value.string s).write ++ rest) = some (.string s, rest) := by
  have hread := readString_writeString s rest
  rw [Value.write, writeString, List.append_assoc, List.cons_append, List.singleton_append]
  rw [readValue, skipBlank, List.dropWhile_cons_of_neg (by decide)]
  simp only [hread, Option.map_some, String.ofList_toList]

theorem readValue_list {v : Value} {vs : List Value} (hv : ∀ u ∈ v.numbers, IsRead number u)
    (hitems : readItems number fuel levels (writeItems (v :: vs) ++ ']' :: rest) = some (v :: vs, rest)) :
    readValue number (fuel + 1) (levels + 1) ((Value.list (v :: vs)).write ++ rest) =
      some (.list (v :: vs), rest) := by
  obtain ⟨c, cs, hhead, hblank, hc⟩ := exists_head_items vs hv
  rw [Value.write, List.append_assoc, List.cons_append, List.singleton_append]
  rw [hhead, List.cons_append] at hitems ⊢
  rw [readValue, skipBlank, List.dropWhile_cons_of_neg (by decide)]
  simp [skipBlank, hblank, hc, hitems]

theorem readValue_object {m : String × Value} {ms : List (String × Value)}
    (hmembers : readMembers number fuel levels (writeMembers (m :: ms) ++ '\x7d' :: rest) =
      some (m :: ms, rest)) :
    readValue number (fuel + 1) (levels + 1) ((Value.object (m :: ms)).write ++ rest) =
      some (.object (m :: ms), rest) := by
  obtain ⟨cs, hhead⟩ := exists_head_members m ms
  rw [Value.write, List.append_assoc, List.cons_append, List.singleton_append]
  rw [hhead, List.cons_append] at hmembers ⊢
  rw [readValue, skipBlank, List.dropWhile_cons_of_neg (by decide)]
  simp [skipBlank, isBlankChar, hmembers]

/-- A member is read up to what follows its value. -/
theorem readMembers_step {key : String} {after : List Char}
    (hread : readValue number fuel levels (v.write ++ after) = some (v, after)) :
    readMembers number (fuel + 1) levels (writeString key ++ ':' :: (v.write ++ after)) =
      match skipBlank after with
      | ',' :: cs => (readMembers number fuel levels cs).map fun p => ((key, v) :: p.1, p.2)
      | '\x7d' :: cs => some ([(key, v)], cs)
      | _ => none := by
  have hkey := readString_writeString key (':' :: (v.write ++ after))
  rw [writeString, List.append_assoc, List.cons_append, List.singleton_append, readMembers, skipBlank,
    List.dropWhile_cons_of_neg (by decide)]
  simp only [hkey, Option.bind_eq_bind, Option.bind_some]
  rw [skipBlank, List.dropWhile_cons_of_neg (by decide)]
  simp only [hread, Option.bind_some, String.ofList_toList]
  generalize skipBlank after = after
  split
  · exact (Option.map_eq_bind ..).symm
  · rfl
  · simp_all

mutual

theorem readValue_write : ∀ (v : Value) (fuel levels : Nat) (rest : List Char),
    (∀ u ∈ v.numbers, IsRead number u) → v.depth ≤ levels → v.write.length < fuel → Follows rest →
      readValue number fuel levels (v.write ++ rest) = some (v, rest)
  | .null, fuel + 1, _, _, _, _, _, _ => by
    simp [Value.write, readValue, skipBlank, isBlankChar, dropWord]
  | .boolean true, fuel + 1, _, _, _, _, _, _ => by
    simp [Value.write, readValue, skipBlank, isBlankChar, dropWord]
  | .boolean false, fuel + 1, _, _, _, _, _, _ => by
    simp [Value.write, readValue, skipBlank, isBlankChar, dropWord]
  | .integer n, fuel + 1, _, _, hv, _, _, hrest => by
    obtain ⟨m, hm, hwrite, hnumber⟩ := hv _ List.mem_cons_self
    exact hwrite ▸ readValue_numeral hm hnumber hrest
  | .real d, fuel + 1, _, _, hv, _, _, hrest => by
    obtain ⟨m, hm, hwrite, hnumber⟩ := hv _ List.mem_cons_self
    exact hwrite ▸ readValue_numeral hm hnumber hrest
  | .string s, fuel + 1, _, _, _, _, _, _ => readValue_string s
  | .list [], fuel + 1, levels + 1, _, _, _, _, _ => by
    simp [Value.write, writeItems, readValue, skipBlank, isBlankChar]
  | .list (v :: vs), fuel + 1, levels + 1, rest, hv, hdepth, hfuel, _ => by
    have hlength : (writeItems (v :: vs)).length + 1 < fuel := by
      simpa [Value.write] using hfuel
    exact readValue_list (fun u hu => hv u (List.mem_append_left _ hu))
      (readItems_write (v :: vs) fuel levels rest (by simp) hv (Nat.le_of_succ_le_succ hdepth) hlength)
  | .object [], fuel + 1, levels + 1, _, _, _, _, _ => by
    simp [Value.write, writeMembers, readValue, skipBlank, isBlankChar]
  | .object (m :: ms), fuel + 1, levels + 1, rest, hv, hdepth, hfuel, _ => by
    have hlength : (writeMembers (m :: ms)).length + 1 < fuel := by
      simpa [Value.write] using hfuel
    exact readValue_object
      (readMembers_write (m :: ms) fuel levels rest (by simp) hv (Nat.le_of_succ_le_succ hdepth) hlength)

theorem readItems_write : ∀ (vs : List Value) (fuel levels : Nat) (rest : List Char), vs ≠ [] →
    (∀ u ∈ itemNumbers vs, IsRead number u) → itemDepth vs ≤ levels →
      (writeItems vs).length + 1 < fuel →
        readItems number fuel levels (writeItems vs ++ ']' :: rest) = some (vs, rest)
  | [v], fuel + 1, levels, rest, _, hv, hdepth, hfuel => by
    have hread := readValue_write v fuel levels (']' :: rest)
      (fun u hu => hv u (List.mem_append_left _ hu)) (Nat.le_trans (Nat.le_max_left ..) hdepth)
      (by rw [writeItems] at hfuel; omega) follows_bracket
    simp [writeItems, readItems, hread, skipBlank, isBlankChar]
  | v :: v' :: vs, fuel + 1, levels, rest, _, hv, hdepth, hfuel => by
    have hlength : v.write.length + (writeItems (v' :: vs)).length + 1 < fuel := by
      simp only [writeItems, List.length_append, List.length_cons] at hfuel
      omega
    have hread := readValue_write v fuel levels
      (',' :: (writeItems (v' :: vs) ++ ']' :: rest))
      (fun u hu => hv u (List.mem_append_left _ hu)) (Nat.le_trans (Nat.le_max_left ..) hdepth)
      (by omega) follows_comma
    have hitems := readItems_write (v' :: vs) fuel levels rest (by simp)
      (fun u hu => hv u (List.mem_append_right _ hu)) (Nat.le_trans (Nat.le_max_right ..) hdepth)
      (by omega)
    rw [writeItems_cons_cons, List.append_assoc, List.cons_append, readItems, hread]
    simp [skipBlank, isBlankChar, hitems]

theorem readMembers_write : ∀ (ms : List (String × Value)) (fuel levels : Nat) (rest : List Char),
    ms ≠ [] → (∀ u ∈ memberNumbers ms, IsRead number u) → memberDepth ms ≤ levels →
      (writeMembers ms).length + 1 < fuel →
        readMembers number fuel levels (writeMembers ms ++ '\x7d' :: rest) = some (ms, rest)
  | [(key, v)], fuel + 1, levels, rest, _, hv, hdepth, hfuel => by
    have hlength : v.write.length < fuel := by
      simp only [writeMembers, List.length_append, List.length_cons] at hfuel
      omega
    have hread := readValue_write v fuel levels ('\x7d' :: rest)
      (fun u hu => hv u (List.mem_append_left _ hu)) (Nat.le_trans (Nat.le_max_left ..) hdepth)
      hlength follows_brace
    rw [writeMembers, List.append_assoc, List.cons_append, readMembers_step hread]
    rfl
  | (key, v) :: m :: ms, fuel + 1, levels, rest, _, hv, hdepth, hfuel => by
    have hlength : v.write.length + (writeMembers (m :: ms)).length + 1 < fuel := by
      simp only [writeMembers, List.length_append, List.length_cons] at hfuel
      omega
    have hread := readValue_write v fuel levels
      (',' :: (writeMembers (m :: ms) ++ '\x7d' :: rest))
      (fun u hu => hv u (List.mem_append_left _ hu)) (Nat.le_trans (Nat.le_max_left ..) hdepth)
      (by omega) follows_comma
    have hmembers := readMembers_write (m :: ms) fuel levels rest (by simp)
      (fun u hu => hv u (List.mem_append_right _ hu)) (Nat.le_trans (Nat.le_max_right ..) hdepth)
      (by omega)
    simp only [writeMembers, List.append_assoc, List.cons_append]
    rw [readMembers_step hread, skipBlank, List.dropWhile_cons_of_neg (by decide)]
    simp [hmembers]

end

/-- A value is read back from its text if its numbers are and enough levels may be opened; there may be
blanks after it. -/
theorem readWithin_write_append (hv : ∀ u ∈ v.numbers, IsRead number u) (hdepth : v.depth ≤ levels)
    (hrest : Follows rest) (hblank : skipBlank rest = []) :
    readWithin number levels (v.write ++ rest) = some v := by
  have hfuel : v.write.length < (v.write ++ rest).length + 1 := by
    rw [List.length_append]
    omega
  have hread := readValue_write v _ levels rest hv hdepth hfuel hrest
  simp only [readWithin, hread, Option.bind_eq_bind, Option.bind_some, hblank]
  rfl

theorem readWithin_write (hv : ∀ u ∈ v.numbers, IsRead number u) (hdepth : v.depth ≤ levels) :
    readWithin number levels v.write = some v := by
  have hread : readWithin number levels (v.write ++ []) = some v :=
    readWithin_write_append hv hdepth (fun _ h => by cases h) rfl
  rwa [List.append_nil] at hread

end

/-! ### Two readers -/

section

variable {v : Value} {items : List Value} {members : List (String × Value)}

theorem length_write_le_items (hv : v ∈ items) : v.write.length ≤ (writeItems items).length := by
  induction items with
  | nil => cases hv
  | cons v' vs ih =>
    cases vs with
    | nil => rw [List.mem_singleton.1 hv, writeItems]
    | cons v'' vs =>
      rw [writeItems_cons_cons, List.length_append, List.length_cons]
      obtain rfl | hv := List.mem_cons.1 hv
      · omega
      · have := ih hv
        omega

theorem length_write_le_members {m : String × Value} (hm : m ∈ members) :
    m.2.write.length ≤ (writeMembers members).length := by
  induction members with
  | nil => cases hm
  | cons m' ms ih =>
    obtain ⟨key, v⟩ := m'
    cases ms with
    | nil =>
      rw [List.mem_singleton.1 hm, writeMembers, List.length_append, List.length_cons]
      dsimp only
      omega
    | cons m' ms =>
      simp only [writeMembers, List.length_append, List.length_cons]
      obtain rfl | hm := List.mem_cons.1 hm
      · dsimp only
        omega
      · have := ih hm
        omega

/-- A text opens no more levels than it has characters. -/
theorem depth_le_length (v : Value) : v.depth ≤ v.write.length := by
  induction v using Value.induction with
  | list items ih =>
    have hdepth : itemDepth items ≤ (writeItems items).length :=
      itemDepth_le_iff.2 fun v hv => Nat.le_trans (ih v hv) (length_write_le_items hv)
    simp only [Value.depth, Value.write, List.length_append, List.length_cons]
    omega
  | object members ih =>
    have hdepth : memberDepth members ≤ (writeMembers members).length :=
      memberDepth_le_iff.2 fun m hm => Nat.le_trans (ih m hm) (length_write_le_members hm)
    simp only [Value.depth, Value.write, List.length_append, List.length_cons]
    omega
  | _ => exact Nat.zero_le _

/-- The value a text describes, with all digits of its numbers and nested as deep as need be. -/
def readExactly (text : List Char) : Option Value :=
  readWithin (fun n => some n.exact) text.length text

/-- The numbers of a value have no digits that are not needed. -/
def Value.Short (v : Value) : Prop := ∀ d, .real d ∈ v.numbers → d.trimmed = d

/-- The numbers of a value are integers of 64 bits, with a sign or without. -/
def Value.Small (v : Value) : Prop := ∀ u ∈ v.numbers, ∃ n, u = .integer n ∧ -2 ^ 63 ≤ n ∧ n < 2 ^ 64

theorem readExactly_write (hv : v.Short) : readExactly v.write = some v := by
  refine readWithin_write (fun u hu => ?_) (depth_le_length v)
  obtain ⟨n, rfl⟩ | ⟨d, rfl⟩ := of_mem_numbers hu
  · exact ⟨.ofInt n, Numeral.proper_ofInt n, Numeral.write_ofInt n,
      congrArg some (Numeral.exact_ofInt n)⟩
  · obtain ⟨n, hn, hwrite, hexact⟩ := Numeral.exists_numeral d
    exact ⟨n, hn, hwrite, congrArg some (hv d hu ▸ hexact)⟩

theorem Value.Small.isRead (hv : v.Small) : ∀ u ∈ v.numbers, IsRead Numeral.value? u := by
  intro u hu
  obtain ⟨n, rfl, hlow, hhigh⟩ := hv u hu
  exact ⟨.ofInt n, Numeral.proper_ofInt n, Numeral.write_ofInt n, Numeral.value?_ofInt hlow hhigh⟩

theorem read_write (hv : v.Small) (hdepth : v.depth ≤ depthLimit) : read v.write = some v :=
  readWithin_write hv.isRead hdepth

theorem read_write_lineFeed (hv : v.Small) (hdepth : v.depth ≤ depthLimit) :
    read (v.write ++ ['\n']) = some v := by
  refine readWithin_write_append hv.isRead hdepth ?_ rfl
  rintro _ ⟨⟩
  decide

end

/-! ### Characters -/

theorem toNat_hexDigit : ∀ n < 16, 0x20 ≤ (hexDigit n).toNat := by decide

/-- No control character is written inside a string. -/
theorem le_of_mem_writeChar {c d : Char} (h : d ∈ writeChar c) : 0x20 ≤ d.toNat := by
  unfold writeChar at h
  split at h
  case h_8 =>
    split at h
    · have hhigh := toNat_hexDigit (c.toNat / 16) (by omega)
      have hlow := toNat_hexDigit (c.toNat % 16) (by omega)
      simp only [List.mem_cons, List.not_mem_nil, or_false] at h
      obtain rfl | rfl | rfl | rfl | rfl | rfl := h <;> first | assumption | decide
    · obtain rfl := List.mem_singleton.1 h
      omega
  all_goals
    simp only [List.mem_cons, List.not_mem_nil, or_false] at h
    obtain rfl | rfl := h <;> decide

theorem le_of_mem_writeString {s : String} {d : Char} (h : d ∈ writeString s) : 0x20 ≤ d.toNat := by
  simp only [writeString, List.cons_append, List.mem_cons, List.mem_append, List.mem_flatMap,
    List.not_mem_nil, or_false] at h
  obtain rfl | ⟨c, -, hd⟩ | rfl := h
  · decide
  · exact le_of_mem_writeChar hd
  · decide

theorem le_of_isDigit {c : Char} (h : c.isDigit = true) : 0x20 ≤ c.toNat := by
  have : '0' ≤ c := by
    simp only [Char.isDigit, Bool.and_eq_true, decide_eq_true_eq] at h
    exact h.1
  exact Nat.le_trans (by decide) this

theorem le_of_mem_toString {e : Int} {c : Char} (h : c ∈ (toString e).toList) : 0x20 ≤ c.toNat := by
  rw [toList_toString_int] at h
  obtain h | h := List.mem_append.1 h
  · split at h
    · obtain rfl := List.mem_singleton.1 h
      decide
    · cases h
  · exact le_of_isDigit (isDigit_of_mem_digitsOf h)

theorem le_of_mem_numeral {n : Numeral} (hn : n.Proper) {c : Char} (h : c ∈ n.write) :
    0x20 ≤ c.toNat := by
  obtain ⟨negative, whole, fraction, exponent⟩ := n
  simp only [Numeral.write, List.mem_append] at h
  obtain ((h | h) | h) | h := h
  · cases negative with
    | true =>
      obtain rfl := List.mem_singleton.1 h
      decide
    | false => cases h
  · exact le_of_isDigit (hn.digit c h)
  · cases fraction with
    | none => cases h
    | some ds =>
      obtain rfl | h := List.mem_cons.1 h
      · decide
      · exact le_of_isDigit ((hn.fraction ds rfl).2 c h)
  · cases exponent with
    | none => cases h
    | some e =>
      obtain rfl | h := List.mem_cons.1 h
      · decide
      · exact le_of_mem_toString h

section

variable {v : Value} {items : List Value} {members : List (String × Value)} {c : Char}

theorem of_mem_writeItems (h : c ∈ writeItems items) : c = ',' ∨ ∃ v ∈ items, c ∈ v.write := by
  induction items with
  | nil => cases h
  | cons v vs ih =>
    cases vs with
    | nil => exact .inr ⟨v, List.mem_cons_self, h⟩
    | cons v' vs =>
      rw [writeItems_cons_cons, List.mem_append, List.mem_cons] at h
      obtain h | rfl | h := h
      · exact .inr ⟨v, List.mem_cons_self, h⟩
      · exact .inl rfl
      · exact (ih h).imp_right fun ⟨u, hu, hc⟩ => ⟨u, List.mem_cons_of_mem v hu, hc⟩

theorem of_mem_writeMembers (h : c ∈ writeMembers members) :
    c = ',' ∨ c = ':' ∨ ∃ m ∈ members, c ∈ writeString m.1 ∨ c ∈ m.2.write := by
  induction members with
  | nil => cases h
  | cons m ms ih =>
    obtain ⟨key, v⟩ := m
    cases ms with
    | nil =>
      rw [writeMembers, List.mem_append, List.mem_cons] at h
      obtain h | h | h := h
      · exact .inr (.inr ⟨_, List.mem_cons_self, .inl h⟩)
      · exact .inr (.inl h)
      · exact .inr (.inr ⟨_, List.mem_cons_self, .inr h⟩)
    | cons m ms =>
      simp only [writeMembers, List.mem_append, List.mem_cons] at h
      obtain (h | h | h) | h | h := h
      · exact .inr (.inr ⟨_, List.mem_cons_self, .inl h⟩)
      · exact .inr (.inl h)
      · exact .inr (.inr ⟨_, List.mem_cons_self, .inr h⟩)
      · exact .inl h
      · exact (ih h).imp_right (.imp_right fun ⟨m', hm, hc⟩ => ⟨m', List.mem_cons_of_mem _ hm, hc⟩)

/-- No control character, so no line break, is written. -/
theorem le_of_mem_write : c ∈ v.write → 0x20 ≤ c.toNat := by
  induction v using Value.induction with
  | null =>
    have : Value.null.write.all (0x20 ≤ ·.toNat) = true := by decide
    exact fun h => of_decide_eq_true (List.all_eq_true.1 this c h)
  | boolean b =>
    have : (Value.boolean b).write.all (0x20 ≤ ·.toNat) = true := by cases b <;> decide
    exact fun h => of_decide_eq_true (List.all_eq_true.1 this c h)
  | integer n => exact le_of_mem_toString
  | real d =>
    obtain ⟨n, hn, hwrite, -⟩ := Numeral.exists_numeral d
    rw [Value.write, ← hwrite]
    exact le_of_mem_numeral hn
  | string s => exact le_of_mem_writeString
  | list items ih =>
    intro h
    simp only [Value.write, List.cons_append, List.mem_cons, List.mem_append, List.not_mem_nil,
      or_false] at h
    obtain rfl | h | rfl := h
    · decide
    · obtain rfl | ⟨u, hu, hc⟩ := of_mem_writeItems h
      · decide
      · exact ih u hu hc
    · decide
  | object members ih =>
    intro h
    simp only [Value.write, List.cons_append, List.mem_cons, List.mem_append, List.not_mem_nil,
      or_false] at h
    obtain rfl | h | rfl := h
    · decide
    · obtain rfl | rfl | ⟨m, hm, hc | hc⟩ := of_mem_writeMembers h
      · decide
      · decide
      · exact le_of_mem_writeString hc
      · exact ih m hm hc
    · decide

end

/-! ### Sorted values -/

section

variable {u v : Value} {m : String × Value} {members : List (String × Value)}

theorem of_mem_insertMember {key : String} (h : m ∈ insertMember key v members) :
    m = (key, v) ∨ m ∈ members := by
  induction members with
  | nil => exact .inl (List.mem_singleton.1 h)
  | cons m' ms ih =>
    rw [insertMember] at h
    split_ifs at h with hlt heq
    · exact List.mem_cons.1 h
    · exact (List.mem_cons.1 h).imp_right (List.mem_cons_of_mem m')
    · obtain rfl | h := List.mem_cons.1 h
      · exact .inr List.mem_cons_self
      · exact (ih h).imp_right (List.mem_cons_of_mem m')

theorem mem_of_mem_sortMembers (h : m ∈ sortMembers members) : m ∈ members := by
  have hgo : ∀ (ms sorted : List (String × Value)), m ∈ ms.foldl (fun sorted m => insertMember m.1 m.2 sorted) sorted →
      m ∈ ms ∨ m ∈ sorted := by
    intro ms
    induction ms with
    | nil => exact fun _ h => .inr h
    | cons m' ms ih =>
      intro sorted h
      obtain h | h := ih _ h
      · exact .inl (List.mem_cons_of_mem m' h)
      · exact (of_mem_insertMember h).imp_left fun heq => List.mem_cons.2 (.inl heq)
  exact (hgo members [] h).resolve_right List.not_mem_nil

theorem sortItems_eq (items : List Value) : sortItems items = items.map Value.sorted := by
  induction items with
  | nil => rfl
  | cons v vs ih => rw [sortItems, ih, List.map_cons]

theorem sortEach_eq (members : List (String × Value)) :
    sortEach members = members.map fun m => (m.1, m.2.sorted) := by
  induction members with
  | nil => rfl
  | cons m ms ih => rw [sortEach, ih, List.map_cons]

/-- A member that is kept comes from one of the same key. -/
theorem exists_of_mem_sorted (h : m ∈ sortMembers (sortEach members)) :
    ∃ m' ∈ members, m = (m'.1, m'.2.sorted) := by
  have hmem := mem_of_mem_sortMembers h
  rw [sortEach_eq] at hmem
  obtain ⟨m', hm', rfl⟩ := List.mem_map.1 hmem
  exact ⟨m', hm', rfl⟩

theorem mem_numbers_of_sorted : u ∈ v.sorted.numbers → u ∈ v.numbers := by
  induction v using Value.induction with
  | list items ih =>
    rw [Value.sorted, Value.numbers, Value.numbers, mem_itemNumbers, mem_itemNumbers, sortItems_eq]
    rintro ⟨_, hsorted, hu⟩
    obtain ⟨v, hv, rfl⟩ := List.mem_map.1 hsorted
    exact ⟨v, hv, ih v hv hu⟩
  | object members ih =>
    rw [Value.sorted, Value.numbers, Value.numbers, mem_memberNumbers, mem_memberNumbers]
    rintro ⟨_, hsorted, hu⟩
    obtain ⟨m, hm, rfl⟩ := exists_of_mem_sorted hsorted
    exact ⟨m, hm, ih m hm hu⟩
  | _ => exact id

theorem depth_sorted_le (v : Value) : v.sorted.depth ≤ v.depth := by
  induction v using Value.induction with
  | list items ih =>
    refine Nat.succ_le_succ (itemDepth_le_iff.2 ?_)
    rw [sortItems_eq]
    intro _ hsorted
    obtain ⟨v, hv, rfl⟩ := List.mem_map.1 hsorted
    exact Nat.le_trans (ih v hv) (itemDepth_le_iff.1 (Nat.le_refl _) v hv)
  | object members ih =>
    refine Nat.succ_le_succ (memberDepth_le_iff.2 fun _ hsorted => ?_)
    obtain ⟨m, hm, rfl⟩ := exists_of_mem_sorted hsorted
    exact Nat.le_trans (ih m hm) (memberDepth_le_iff.1 (Nat.le_refl _) m hm)
  | _ => exact Nat.le_refl _

end

end AnySpans.Json
