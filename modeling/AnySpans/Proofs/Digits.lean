import AnySpans.Number.Count
import AnySpans.Number.Decimal
import Mathlib.Data.List.Basic
import Mathlib.Data.List.Induction
import Mathlib.Tactic.Ring

/-!
# Digits of numbers

The digits of a number are those that its text has, and the number is their value
(`valueOf_digitsOf`).  Zeros at the end of the digits of a decimal only move its point
(`Decimal.trimmed_mul_pow`).
-/

namespace AnySpans.Number

/-! ### Numbers as texts -/

/-- A number is read back from its digits. -/
theorem ofDigits_toString (n : Nat) : ofDigits (toString n).toList = n := by
  have hdigits : ofDigits = (Nat.ofDigitChars 10 · 0) := by
    funext ds
    rw [Nat.ofDigitChars_eq_foldl]
    show ds.foldl (fun n d => n * 10 + (d.toNat - 48)) 0 = _
    simp only [Nat.mul_comm]
    rfl
  show ofDigits (Nat.repr n).toList = n
  rw [Nat.toList_repr, hdigits]
  exact Nat.ofDigitChars_toDigits (by decide) (by decide)

theorem toList_toString (n : Nat) : (toString n).toList = digitsOf n := Nat.toList_repr

theorem isDigit_of_mem_digitsOf {n : Nat} {c : Char} (h : c ∈ digitsOf n) : c.isDigit = true :=
  Nat.isDigit_of_mem_toDigits (by decide) (by decide) h

theorem digitsOf_ne_nil (n : Nat) : digitsOf n ≠ [] := Nat.toDigits_ne_nil

theorem isDigit_of_mem_toString {n : Nat} {c : Char} (h : c ∈ (toString n).toList) :
    c.isDigit = true :=
  isDigit_of_mem_digitsOf (toList_toString n ▸ h)

theorem toString_ne_nil (n : Nat) : (toString n).toList ≠ [] := toList_toString n ▸ digitsOf_ne_nil n

theorem toList_toString_int (n : Int) :
    (toString n).toList = (if n < 0 then ['-'] else []) ++ digitsOf n.natAbs := by
  cases n with
  | ofNat n => exact toList_toString n
  | negSucc n =>
    show ("-" ++ Nat.repr (n + 1)).toList = _
    rw [String.toList_append, Nat.toList_repr, if_pos (Int.negSucc_lt_zero n)]
    rfl

/-! ### The digits of products -/

theorem digitsOf_of_le {n : Nat} (h : 10 ≤ n) :
    digitsOf n = digitsOf (n / 10) ++ [(n % 10).digitChar] :=
  Nat.toDigits_of_base_le (by decide) h

theorem digitsOf_mul_ten {n : Nat} (h : 0 < n) : digitsOf (n * 10) = digitsOf n ++ ['0'] := by
  rw [digitsOf_of_le (by omega), Nat.mul_div_cancel n (by decide), Nat.mul_mod_left]
  rfl

theorem digitsOf_mul_pow {n : Nat} (h : 0 < n) (k : Nat) :
    digitsOf (n * 10 ^ k) = digitsOf n ++ List.replicate k '0' := by
  induction k with
  | zero => simp
  | succ k ih =>
    have hpos : 0 < n * 10 ^ k := Nat.mul_pos h (Nat.pow_pos (by decide))
    rw [Nat.pow_succ, ← Nat.mul_assoc, digitsOf_mul_ten hpos, ih, List.append_assoc,
      List.replicate_succ']

/-- Only zero has a zero in front. -/
theorem head?_digitsOf {n : Nat} (h : 0 < n) : (digitsOf n).head? ≠ some '0' := by
  induction n using Nat.strong_induction_on with
  | _ n ih =>
    by_cases hn : n < 10
    · have : ∀ m < 10, 0 < m → (digitsOf m).head? ≠ some '0' := by decide
      exact this n hn h
    · rw [digitsOf_of_le (by omega), List.head?_append]
      have hfirst := ih (n / 10) (by omega) (by omega)
      cases hds : digitsOf (n / 10) with
      | nil => exact absurd hds (digitsOf_ne_nil _)
      | cons d ds => simpa [hds] using hfirst

/-! ### The value of digits -/

theorem valueOf_eq_ofDigits {ds : List Char} (h : ∀ c ∈ ds, c.isDigit = true) :
    valueOf 10 ds = ofDigits ds := by
  refine List.foldl_ext _ _ 0 fun n c hc => ?_
  simp [h c hc]

theorem valueOf_digitsOf (n : Nat) : valueOf 10 (digitsOf n) = n := by
  rw [valueOf_eq_ofDigits fun _ => isDigit_of_mem_digitsOf, ← toList_toString, ofDigits_toString]

theorem valueOf_append (b : Nat) (cs ds : List Char) :
    valueOf b (cs ++ ds) = valueOf b cs * b ^ ds.length + valueOf b ds := by
  induction ds using List.reverseRecOn generalizing cs with
  | nil => simp [valueOf]
  | append_singleton ds d ih =>
    have hlast : ∀ es, valueOf b (es ++ [d]) = valueOf b es * b + valueOf b [d] := by
      intro es
      simp [valueOf, List.foldl_append]
    rw [← List.append_assoc, hlast, ih, hlast, List.length_append, List.length_singleton]
    ring

theorem valueOf_replicate_zero (k : Nat) : valueOf 10 (List.replicate k '0') = 0 := by
  induction k with
  | zero => rfl
  | succ k ih =>
    rw [List.replicate_succ', valueOf_append, ih]
    rfl

/-! ### Decimals -/

/-- Zeros at the end of the digits only move the point. -/
theorem Decimal.trimmed_mul_pow (negative : Bool) (m k : Nat) (e : Int) :
    Decimal.trimmed ⟨negative, m * 10 ^ k, e⟩ = Decimal.trimmed ⟨negative, m, e + k⟩ := by
  obtain rfl | hm := Nat.eq_zero_or_pos m
  · simp [Decimal.trimmed]
  · have hne : m * 10 ^ k ≠ 0 := Nat.mul_ne_zero (by omega) (Nat.pow_pos (by decide)).ne'
    have hzeros : ((digitsOf (m * 10 ^ k)).reverse.takeWhile (· == '0')).length =
        k + ((digitsOf m).reverse.takeWhile (· == '0')).length := by
      rw [digitsOf_mul_pow hm, List.reverse_append, List.reverse_replicate,
        List.takeWhile_append_of_pos (by simp), List.length_append, List.length_replicate]
    rw [Decimal.trimmed, if_neg hne, Decimal.trimmed, if_neg (by dsimp only; omega)]
    dsimp only
    rw [hzeros]
    refine congr (congrArg (Decimal.mk negative) ?_) (by push_cast; ring)
    rw [Nat.pow_eq, Nat.pow_eq, Nat.pow_add, Nat.mul_comm m, Nat.mul_div_mul_left]
    exact Nat.pow_pos (by decide)

end AnySpans.Number
