import Urchin.Proof.Xmit

/-!
# The checksums the handlers store

The handlers sum words in a `u32`, fold the sum twice, complement it and store two bytes.
In terms of `Inet`: the folding is `Inet.fold` (`csumFold_toNat`), both ways of storing
write the big-endian complement (`leBytes_csumField`, `csumBytes_eq`), and a buffer the
checksum has been stored in has the bytes `Inet.store` (`peek_poke_csumBytes`).
-/

namespace Urchin

open Exec Inet

/-- Two foldings of a 32-bit sum, without the complement. -/
theorem csumFold_toNat (c : UInt32) : (~~~csumFold c).toNat = fold 0xffff (fold 0xffff c.toNat) := by
  have hstep : ∀ x : UInt32, x.toNat % 65536 + x.toNat / 65536 < 2 ^ 32 →
      ((x &&& (0x0000ffff : UInt32)) + (x >>> (16 : UInt32))).toNat = fold 0xffff x.toNat := by
    intro x hx
    have hand : x.toNat &&& 65535 = x.toNat % 65536 := Nat.and_two_pow_sub_one_eq_mod x.toNat 16
    rw [UInt32.toNat_add, UInt32.toNat_and, UInt32.toNat_shiftRight]
    simp only [UInt32.reduceToNat, Nat.reduceMod]
    rw [hand, Nat.shiftRight_eq_div_pow]
    exact Nat.mod_eq_of_lt hx
  have hc := c.toNat_lt
  unfold csumFold
  simp only [UInt32.not_not]
  rw [hstep _ (by rw [hstep _ (by omega)]; unfold fold; omega), hstep _ (by omega)]

/-- **Two foldings are enough** for every 32-bit sum. -/
theorem csumFold_le (c : UInt32) : (~~~csumFold c).toNat ≤ 0xffff := by
  rw [csumFold_toNat]
  exact fold_fold_le c.toNat_lt

/-- The two bytes of a checksum, as they are stored. -/
def csumBytes (c : UInt32) : List UInt8 := [(csumFold c >>> 8).toUInt8, (csumFold c).toUInt8]

@[simp] theorem csumBytes_length (c : UInt32) : (csumBytes c).length = 2 := rfl

theorem csumField_toNat (c : UInt32) : (csumField c).toNat = 256 * (c.toNat % 256) + c.toNat / 256 % 256 := by
  have hlo : c.toNat &&& 255 = c.toNat % 256 := Nat.and_two_pow_sub_one_eq_mod c.toNat 8
  have hhi : (c.toNat &&& 65280) >>> 8 = c.toNat / 256 % 256 := by
    rw [Nat.shiftRight_and_distrib, Nat.shiftRight_eq_div_pow]
    exact Nat.and_two_pow_sub_one_eq_mod _ 8
  unfold csumField
  rw [UInt32.toNat_toUInt16, UInt32.toNat_or, UInt32.toNat_shiftLeft, UInt32.toNat_shiftRight,
    UInt32.toNat_and, UInt32.toNat_and]
  simp only [UInt32.reduceToNat, Nat.reduceMod]
  rw [hlo, hhi, Nat.shiftLeft_eq, show c.toNat % 256 * 2 ^ 8 % 2 ^ 32 = 2 ^ 8 * (c.toNat % 256) by omega,
    ← Nat.two_pow_add_eq_or_of_lt (i := 8) (by omega)]
  omega

/-- Swapping the bytes of a `u16` that is then stored with the low byte first. -/
theorem leBytes_csumField (c : UInt32) : leBytes (csumField (csumFold c)) = csumBytes c := by
  have h := csumField_toNat (csumFold c)
  have hlo : (csumField (csumFold c)).toUInt8 = (csumFold c >>> 8).toUInt8 := by
    apply UInt8.toNat_inj.1
    rw [UInt16.toNat_toUInt8, UInt32.toNat_toUInt8, h, UInt32.toNat_shiftRight, Nat.shiftRight_eq_div_pow]
    simp only [UInt32.reduceToNat, Nat.reduceMod]
    omega
  have hhi : (csumField (csumFold c) >>> 8).toUInt8 = (csumFold c).toUInt8 := by
    apply UInt8.toNat_inj.1
    rw [UInt16.toNat_toUInt8, UInt32.toNat_toUInt8, UInt16.toNat_shiftRight, h, Nat.shiftRight_eq_div_pow]
    simp only [UInt16.reduceToNat, Nat.reduceMod, Nat.reducePow]
    rw [Nat.mul_add_div (by decide), Nat.div_eq_of_lt (Nat.mod_lt _ (by decide)), Nat.add_zero, Nat.mod_mod]
  unfold leBytes csumBytes
  rw [hlo, hhi]

/-- The stored bytes are those of the complement. -/
theorem csumBytes_eq (c : UInt32) :
    csumBytes c = [UInt8.ofNat (complement c.toNat / 256), UInt8.ofNat (complement c.toNat % 256)] := by
  have hle := csumFold_le c
  have hcompl : complement c.toNat = 0xffff - (~~~csumFold c).toNat := by
    rw [csumFold_toNat]; rfl
  have hnot : (csumFold c).toNat = 2 ^ 32 - 1 - (~~~csumFold c).toNat := by
    have := (csumFold c).toNat_lt
    rw [UInt32.toNat_not]
    simp only [UInt32.size]
    omega
  have hhi : (csumFold c >>> 8).toUInt8 = UInt8.ofNat (complement c.toNat / 256) := by
    apply UInt8.toNat_inj.1
    rw [UInt32.toNat_toUInt8, UInt32.toNat_shiftRight, Nat.shiftRight_eq_div_pow, UInt8.toNat_ofNat', hcompl, hnot]
    simp only [UInt32.reduceToNat, Nat.reduceMod]
    omega
  have hlo : (csumFold c).toUInt8 = UInt8.ofNat (complement c.toNat % 256) := by
    apply UInt8.toNat_inj.1
    rw [UInt32.toNat_toUInt8, UInt8.toNat_ofNat', hcompl, hnot]
    omega
  unfold csumBytes
  rw [hhi, hlo]

/-- **A stored checksum**, in terms of the bytes. -/
theorem peek_poke_csumBytes {r : Buffer} {c : UInt32} {c₀ lo hi : ℕ} (hc : c.toNat = c₀ + wordSum r.peek lo hi)
    (k : ℕ) : (r.poke (k * 2) (csumBytes c)).peek = store c₀ r.peek k lo hi := by
  funext j
  rw [Buffer.peek_poke, csumBytes_length, csumBytes_eq, hc]
  unfold store
  by_cases h1 : j = k * 2
  · subst h1
    rw [if_pos (by omega), if_pos rfl, Nat.sub_self]
    rfl
  · rw [if_neg h1]
    by_cases h2 : j = k * 2 + 1
    · subst h2
      rw [if_pos (by omega), if_pos rfl, Nat.add_sub_cancel_left]
      rfl
    · rw [if_neg (by omega), if_neg h2]

end Urchin
