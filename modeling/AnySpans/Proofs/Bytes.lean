import Mathlib.Data.List.Basic
import Mathlib.Tactic.SplitIfs

/-!
# Bytes of texts

The bytes below 128 in an encoded text are its characters of that code, so an encoded text can be cut
at such characters byte by byte.
-/

namespace AnySpans.Text

variable {c : Char} {b : UInt8}

/-- A byte of one character that is not above 127 is the character itself. -/
theorem toNat_of_mem_utf8EncodeChar (h : b ∈ String.utf8EncodeChar c) (hb : b.toNat < 128) :
    c.val.toNat = b.toNat := by
  unfold String.utf8EncodeChar at h
  dsimp only at h
  split_ifs at h <;> simp only [List.mem_cons, List.not_mem_nil, or_false] at h
  · rw [h, UInt8.toNat_ofNat']
    omega
  · obtain rfl | rfl := h <;> rw [UInt8.toNat_ofNat'] at hb <;> omega
  · obtain rfl | rfl | rfl := h <;> rw [UInt8.toNat_ofNat'] at hb <;> omega
  · obtain rfl | rfl | rfl | rfl := h <;> rw [UInt8.toNat_ofNat'] at hb <;> omega

theorem eq_of_mem_utf8EncodeChar {d : Char} (hd : d.val.toNat < 128)
    (h : d.toUInt8 ∈ String.utf8EncodeChar c) : c = d := by
  have htoNat : d.toUInt8.toNat = d.val.toNat := by
    show d.val.toUInt8.toNat = _
    rw [UInt32.toNat_toUInt8]
    omega
  have := toNat_of_mem_utf8EncodeChar h (by omega)
  exact Char.ext (UInt32.toNat_inj.1 (this.trans htoNat))

theorem toList_loop_eq (bytes : ByteArray) (i : Nat) (done : List UInt8) :
    ByteArray.toList.loop bytes i done = done.reverse ++ bytes.data.toList.drop i := by
  fun_induction ByteArray.toList.loop bytes i done with
  | case1 i done h ih =>
    have hi : i < bytes.data.size := h
    have hget : bytes.get! i = bytes.data[i] := getElem!_pos bytes.data i hi
    rw [ih, List.reverse_cons, List.append_assoc, List.singleton_append, hget,
      List.drop_eq_getElem_cons (l := bytes.data.toList) hi, Array.getElem_toList]
  | case2 i done h =>
    have : bytes.data.toList.length ≤ i := Nat.le_of_not_lt h
    rw [List.drop_eq_nil_of_le this, List.append_nil]

end AnySpans.Text
