import Urchin.Numeral.Digits
import Urchin.Spec.Address

/-!
# Packed addresses and their bytes

The word of an address is a number in base 256 with the address's bytes as digits:
highest first for IPv4 and IPv6, lowest first for MAC addresses. So the words compare
as the bytes do lexicographically (`Ipv4Address.cmp_eq`, `Ipv6Address.cmp_eq`,
`MacAddress.cmp_new`), and `address_packing` puts this together with the round trips.
-/

namespace Urchin

open Numeral

theorem compare_bytes (l l' : List UInt8) : compare (l.map UInt8.toNat) (l'.map UInt8.toNat) = compare l l' :=
  compare_map (fun x y => (UInt8.compare_eq_toNat_compare_toNat x y).symm) l l'

theorem compare_toNat {n : ℕ} (x y : BitVec n) : compare x y = compare x.toNat y.toNat := by
  change compareOfLessAndEq x y = compareOfLessAndEq x.toNat y.toNat
  unfold compareOfLessAndEq
  simp only [BitVec.lt_def, BitVec.toNat_inj]

/-- **Words compare as the lists of bytes** that are their digits, highest first. -/
theorem compare_words {n v w : ℕ} {l l' : List UInt8} (hv : v < 256 ^ n) (hw : w < 256 ^ n)
    (hl : l.map UInt8.toNat = (digits 256 n v).reverse) (hl' : l'.map UInt8.toNat = (digits 256 n w).reverse) :
    compare v w = compare l l' := by
  rw [compare_digits (by norm_num) hv hw, ← hl, ← hl', compare_bytes]

/-- A byte cut out of a word of `n` bits is a digit of it. -/
theorem toNat_byte {n : ℕ} (x : BitVec n) (k : ℕ) :
    ((x >>> (8 * k)).setWidth 8).toNat = x.toNat / 256 ^ k % 256 := by
  rw [BitVec.toNat_setWidth, BitVec.toNat_ushiftRight, Nat.shiftRight_eq_div_pow, pow_mul]
  norm_num

namespace Ipv4Address

/-- The bytes are the digits, highest first. -/
theorem getArray_digits (a : Ipv4Address) :
    (List.ofFn a.getArray).map UInt8.toNat = (digits 256 4 a.addrPrim.toNat).reverse := by
  rw [List.map_ofFn]
  apply ofFn_eq_reverse_digits
  intro i
  have hi : 24 - 8 * (i : ℕ) = 8 * (4 - 1 - i) := by omega
  rw [Function.comp_apply, ← UInt8.toNat_toBitVec, toBitVec_getArray, hi, toNat_byte, UInt32.toNat_toBitVec]

theorem cmp_eq (a b : Ipv4Address) : a.cmp b = compare (List.ofFn a.getArray) (List.ofFn b.getArray) := by
  unfold cmp
  rw [UInt32.compare_eq_toNat_compare_toNat]
  exact compare_words (n := 4) a.addrPrim.toNat_lt b.addrPrim.toNat_lt a.getArray_digits b.getArray_digits

end Ipv4Address

namespace Ipv6Address

/-- The bytes are the digits, highest first. -/
theorem getArray_digits (a : Ipv6Address) :
    (List.ofFn a.getArray).map UInt8.toNat = (digits 256 16 a.addrPrim.toNat).reverse := by
  rw [List.map_ofFn]
  apply ofFn_eq_reverse_digits
  intro i
  have hi : 120 - 8 * (i : ℕ) = 8 * (16 - 1 - i) := by omega
  rw [Function.comp_apply, getArray, UInt8.toNat_ofBitVec, hi, toNat_byte]

theorem cmp_eq (a b : Ipv6Address) : a.cmp b = compare (List.ofFn a.getArray) (List.ofFn b.getArray) := by
  unfold cmp
  rw [compare_toNat]
  exact compare_words (n := 16) a.addrPrim.isLt b.addrPrim.isLt a.getArray_digits b.getArray_digits

end Ipv6Address

namespace MacAddress

theorem macPrim_lt (addr : Fin 6 → UInt8) : (macPrim addr).toNat < 256 ^ 6 := by
  have hbyte : ∀ (x : UInt8) (k : UInt64), k.toNat ≤ 40 → (x.toUInt64 <<< k).toNat < 2 ^ 48 := by
    intro x k hk
    rw [UInt64.toNat_shiftLeft, Nat.mod_eq_of_lt (show k.toNat < 64 by omega), Nat.shiftLeft_eq, UInt8.toNat_toUInt64]
    calc
      x.toNat * 2 ^ k.toNat % 2 ^ 64 ≤ x.toNat * 2 ^ k.toNat := Nat.mod_le _ _
      _ ≤ x.toNat * 2 ^ 40 := Nat.mul_le_mul_left _ (Nat.pow_le_pow_right (by norm_num) hk)
      _ < 2 ^ 48 := by have := x.toNat_lt; omega
  have hlast : (addr 0).toUInt64.toNat < 2 ^ 48 := by
    rw [UInt8.toNat_toUInt64]
    exact lt_trans (addr 0).toNat_lt (by norm_num)
  rw [show (256 : ℕ) ^ 6 = 2 ^ 48 by norm_num]
  simp only [macPrim, UInt64.toNat_or]
  refine Nat.or_lt_two_pow ?_ hlast
  refine Nat.or_lt_two_pow ?_ (hbyte _ 8 (by decide))
  refine Nat.or_lt_two_pow ?_ (hbyte _ 16 (by decide))
  refine Nat.or_lt_two_pow ?_ (hbyte _ 24 (by decide))
  exact Nat.or_lt_two_pow (hbyte _ 40 (by decide)) (hbyte _ 32 (by decide))

/-- The bytes are the digits, lowest first. -/
theorem addr_digits (addr : Fin 6 → UInt8) :
    (List.ofFn addr).map UInt8.toNat = digits 256 6 (macPrim addr).toNat := by
  rw [List.map_ofFn]
  apply ofFn_eq_digits
  intro i
  rw [Function.comp_apply, ← UInt64.toNat_toBitVec, ← toNat_byte, ← macPrim_shift, ← UInt64.toBitVec_toUInt8,
    macPrim_byte, UInt8.toNat_toBitVec]

theorem cmp_new (a b : Fin 6 → UInt8) :
    (new a).cmp (new b) = compare (List.ofFn a).reverse (List.ofFn b).reverse := by
  unfold cmp new
  rw [UInt64.compare_eq_toNat_compare_toNat]
  apply compare_words (macPrim_lt a) (macPrim_lt b)
  · rw [List.map_reverse, addr_digits]
  · rw [List.map_reverse, addr_digits]

theorem eq_new (a b : Fin 6 → UInt8) : (new a).eq (new b) = true ↔ a = b := by
  unfold eq new
  rw [beq_iff_eq]
  exact ⟨macPrim_inj, congrArg macPrim⟩

theorem cmp_new_eq (a b : Fin 6 → UInt8) : (new a).cmp (new b) = .eq ↔ a = b := by
  unfold cmp new
  rw [Std.LawfulEqOrd.compare_eq_iff_eq]
  exact ⟨macPrim_inj, congrArg macPrim⟩

end MacAddress

/-- **Addresses are packed faithfully**: they give their bytes back, and they are ordered
and told apart as their bytes are. -/
theorem address_packing :
    ((∀ arr, (Ipv4Address.fromArray arr).getArray = arr) ∧
      (∀ a : Ipv4Address, .fromArray a.getArray = a) ∧
      ∀ a b : Ipv4Address, a.cmp b = compare (List.ofFn a.getArray) (List.ofFn b.getArray)) ∧
    ((∀ arr, (Ipv6Address.fromArray arr).getArray = arr) ∧
      (∀ a : Ipv6Address, .fromArray a.getArray = a) ∧
      ∀ a b : Ipv6Address, a.cmp b = compare (List.ofFn a.getArray) (List.ofFn b.getArray)) ∧
    ∀ a b, ((MacAddress.new a).eq (.new b) = true ↔ a = b) ∧ ((MacAddress.new a).cmp (.new b) = .eq ↔ a = b) ∧
      (MacAddress.new a).cmp (.new b) = compare (List.ofFn a).reverse (List.ofFn b).reverse :=
  ⟨⟨Ipv4Address.getArray_fromArray, Ipv4Address.fromArray_getArray, Ipv4Address.cmp_eq⟩,
    ⟨Ipv6Address.getArray_fromArray, Ipv6Address.fromArray_getArray, Ipv6Address.cmp_eq⟩,
    fun a b => ⟨MacAddress.eq_new a b, MacAddress.cmp_new_eq a b, MacAddress.cmp_new a b⟩⟩

end Urchin
