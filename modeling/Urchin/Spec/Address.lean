import Mathlib

/-!
# Addresses (`net/ethernet.rs`, `net/ipv4.rs`, `net/ipv6.rs`)

MAC, IPv4 and IPv6 addresses are packed into one word each, which is what the
table lookups compare. A MAC address also keeps its six bytes; the two fields are
set together and never apart, so the structure carries their agreement.

Shift amounts are masked to the word's width, as in the release build.
-/

namespace Urchin

/-! ## Bytes in a word -/

/-- A byte shifted in a word of `n` bits has its bits where it was shifted to, -/
theorem shifted_self {n : ℕ} {x : UInt8} {s j : ℕ} (hs : s + 8 ≤ n) (hj : j < 8) :
    (x.toBitVec.setWidth n <<< s).getLsbD (s + j) = x.toBitVec.getLsbD j := by
  have h : s + j < n := by omega
  simp [h]

/-- and none in the place of another byte. -/
theorem shifted_other {n : ℕ} {x : UInt8} {s t j : ℕ} (h : t + 8 ≤ s ∨ s + 8 ≤ t) (hj : j < 8) :
    (x.toBitVec.setWidth n <<< s).getLsbD (t + j) = false := by
  rw [BitVec.getLsbD_shiftLeft]
  by_cases hst : t + j < s
  · simp [hst]
  · have hge : 8 ≤ t + j - s := by omega
    simp [BitVec.getLsbD_of_ge _ _ hge]

/-! ## MAC addresses -/

/-- `addr_prim` of `MacAddress::new`: the last byte is the most significant. -/
def macPrim (addr : Fin 6 → UInt8) : UInt64 :=
  (addr 5).toUInt64 <<< 40 ||| (addr 4).toUInt64 <<< 32 ||| (addr 3).toUInt64 <<< 24 |||
    (addr 2).toUInt64 <<< 16 ||| (addr 1).toUInt64 <<< 8 ||| (addr 0).toUInt64

structure MacAddress where
  addr : Fin 6 → UInt8
  addrPrim : UInt64
  packed : addrPrim = macPrim addr

namespace MacAddress

def new (addr : Fin 6 → UInt8) : MacAddress := ⟨addr, macPrim addr, rfl⟩

def getArray (a : MacAddress) : Fin 6 → UInt8 := a.addr

theorem macPrim_toBitVec (addr : Fin 6 → UInt8) : (macPrim addr).toBitVec =
    (addr 5).toBitVec.setWidth 64 <<< 40 ||| (addr 4).toBitVec.setWidth 64 <<< 32 |||
      (addr 3).toBitVec.setWidth 64 <<< 24 ||| (addr 2).toBitVec.setWidth 64 <<< 16 |||
      (addr 1).toBitVec.setWidth 64 <<< 8 ||| (addr 0).toBitVec.setWidth 64 <<< 0 := by
  simp [macPrim]

theorem macPrim_shift (addr : Fin 6 → UInt8) (i : Fin 6) :
    (macPrim addr >>> (8 * UInt64.ofNat i)).toBitVec = (macPrim addr).toBitVec >>> (8 * (i : ℕ)) := by
  fin_cases i <;> rfl

/-- A packed address gives its bytes back. -/
theorem macPrim_byte (addr : Fin 6 → UInt8) (i : Fin 6) :
    (macPrim addr >>> (8 * UInt64.ofNat i)).toUInt8 = addr i := by
  apply UInt8.toBitVec_inj.1
  apply BitVec.eq_of_getLsbD_eq
  intro j hj
  rw [UInt64.toBitVec_toUInt8, macPrim_shift, macPrim_toBitVec, BitVec.getLsbD_setWidth, BitVec.getLsbD_ushiftRight]
  -- one of the six shifted bytes is in this place
  fin_cases i <;>
    simp (disch := omega) only [BitVec.getLsbD_or, shifted_self, shifted_other, hj, Bool.or_false, Bool.false_or,
      decide_true, Bool.true_and, Nat.reduceMul] <;>
    rfl

theorem macPrim_inj {a b : Fin 6 → UInt8} (h : macPrim a = macPrim b) : a = b := by
  funext i
  rw [← macPrim_byte a i, h, macPrim_byte b i]

/-- Addresses with the same packed word are the same. -/
theorem ext_prim {a b : MacAddress} (h : a.addrPrim = b.addrPrim) : a = b := by
  obtain ⟨a, p, rfl⟩ := a
  obtain ⟨b, q, rfl⟩ := b
  obtain rfl := macPrim_inj h
  rfl

/-- The bytes of an address pack to it. -/
@[simp] theorem new_getArray (a : MacAddress) : new a.getArray = a := by
  obtain ⟨a, p, rfl⟩ := a
  rfl

/-- `PartialEq` and `Ord`: the packed words are compared. -/
def eq (a other : MacAddress) : Bool := a.addrPrim == other.addrPrim

def cmp (a other : MacAddress) : Ordering := compare a.addrPrim other.addrPrim

instance : DecidableEq MacAddress := fun a b =>
  decidable_of_iff (a.addrPrim = b.addrPrim) ⟨ext_prim, fun h => by rw [h]⟩

end MacAddress

/-! ## IPv4 addresses -/

structure Ipv4Address where
  addrPrim : UInt32
  deriving DecidableEq

namespace Ipv4Address

def fromArray (arr : Fin 4 → UInt8) : Ipv4Address :=
  ⟨(arr 0).toUInt32 <<< 24 ||| (arr 1).toUInt32 <<< 16 ||| (arr 2).toUInt32 <<< 8 ||| (arr 3).toUInt32⟩

def masked (a : Ipv4Address) (prefixLength : UInt32) : Ipv4Address :=
  let mask : UInt32 := 0xffffffff <<< (32 - prefixLength)
  ⟨a.addrPrim &&& mask⟩

def getArray (a : Ipv4Address) : Fin 4 → UInt8 :=
  ![(a.addrPrim >>> 24).toUInt8, (a.addrPrim >>> 16).toUInt8, (a.addrPrim >>> 8).toUInt8, a.addrPrim.toUInt8]

/-- Byte `i` is the word shifted right by `24 - 8 i`. -/
theorem toBitVec_getArray (a : Ipv4Address) (i : Fin 4) :
    (a.getArray i).toBitVec = (a.addrPrim.toBitVec >>> (24 - 8 * (i : ℕ))).setWidth 8 := by
  fin_cases i <;> rfl

theorem toBitVec_fromArray (arr : Fin 4 → UInt8) : (fromArray arr).addrPrim.toBitVec =
    (arr 0).toBitVec.setWidth 32 <<< 24 ||| (arr 1).toBitVec.setWidth 32 <<< 16 |||
      (arr 2).toBitVec.setWidth 32 <<< 8 ||| (arr 3).toBitVec.setWidth 32 <<< 0 := by
  simp [fromArray]

/-- A packed address gives its bytes back. -/
@[simp] theorem getArray_fromArray (arr : Fin 4 → UInt8) : (fromArray arr).getArray = arr := by
  funext i
  apply UInt8.toBitVec_inj.1
  apply BitVec.eq_of_getLsbD_eq
  intro j hj
  rw [toBitVec_getArray, toBitVec_fromArray, BitVec.getLsbD_setWidth, BitVec.getLsbD_ushiftRight]
  fin_cases i <;>
    simp (disch := omega) only [BitVec.getLsbD_or, shifted_self, shifted_other, hj, Bool.or_false, Bool.false_or,
      decide_true, Bool.true_and, Nat.reduceMul, Nat.reduceSub] <;>
    rfl

/-- The bytes of an address pack to it. -/
@[simp] theorem fromArray_getArray (a : Ipv4Address) : fromArray a.getArray = a := by
  obtain ⟨a⟩ := a
  refine congrArg Ipv4Address.mk (UInt32.toBitVec_inj.1 ?_)
  ext j hj
  simp [-UInt32.toUInt32_toUInt8, getArray]
  interval_cases j <;> simp

/-- `Ord`. -/
def cmp (a other : Ipv4Address) : Ordering := compare a.addrPrim other.addrPrim

end Ipv4Address

/-! ## IPv6 addresses -/

structure Ipv6Address where
  addrPrim : BitVec 128
  deriving DecidableEq

namespace Ipv6Address

/-- A byte as `u128`. -/
def wide (b : UInt8) : BitVec 128 := b.toBitVec.setWidth 128

def fromArray (arr : Fin 16 → UInt8) : Ipv6Address :=
  ⟨wide (arr 0) <<< 120 ||| wide (arr 1) <<< 112 ||| wide (arr 2) <<< 104 ||| wide (arr 3) <<< 96 |||
    wide (arr 4) <<< 88 ||| wide (arr 5) <<< 80 ||| wide (arr 6) <<< 72 ||| wide (arr 7) <<< 64 |||
    wide (arr 8) <<< 56 ||| wide (arr 9) <<< 48 ||| wide (arr 10) <<< 40 ||| wide (arr 11) <<< 32 |||
    wide (arr 12) <<< 24 ||| wide (arr 13) <<< 16 ||| wide (arr 14) <<< 8 ||| wide (arr 15)⟩

/-- The difference is taken in `u32` and the shift amount modulo 128. -/
def masked (a : Ipv6Address) (prefixLength : UInt32) : Ipv6Address :=
  let mask : BitVec 128 := BitVec.allOnes 128 <<< ((128 - prefixLength).toNat % 128)
  ⟨a.addrPrim &&& mask⟩

/-- Byte `i` is the word shifted right by `120 - 8 i`. -/
def getArray (a : Ipv6Address) : Fin 16 → UInt8 :=
  fun i => UInt8.ofBitVec ((a.addrPrim >>> (120 - 8 * (i : ℕ))).setWidth 8)

/-- The most significant byte. -/
def firstByte (a : Ipv6Address) : UInt8 := a.getArray 0

/-- A packed address gives its bytes back. -/
@[simp] theorem getArray_fromArray (arr : Fin 16 → UInt8) : (fromArray arr).getArray = arr := by
  have hlast : wide (arr 15) = wide (arr 15) <<< 0 := by simp
  funext i
  apply UInt8.toBitVec_inj.1
  unfold getArray fromArray
  rw [hlast]
  unfold wide
  apply BitVec.eq_of_getLsbD_eq
  intro j hj
  rw [UInt8.toBitVec_ofBitVec, BitVec.getLsbD_setWidth, BitVec.getLsbD_ushiftRight]
  -- one of the sixteen shifted bytes is in this place
  fin_cases i <;>
    simp (disch := omega) only [BitVec.getLsbD_or, shifted_self, shifted_other, hj, Bool.or_false, Bool.false_or,
      decide_true, Bool.true_and, Nat.reduceMul, Nat.reduceSub] <;>
    rfl

/-- The sixteen shifts of the source. -/
theorem getArray_eq (a : Ipv6Address) : a.getArray = fun i =>
    UInt8.ofBitVec ((![a.addrPrim >>> 120, a.addrPrim >>> 112, a.addrPrim >>> 104, a.addrPrim >>> 96,
      a.addrPrim >>> 88, a.addrPrim >>> 80, a.addrPrim >>> 72, a.addrPrim >>> 64, a.addrPrim >>> 56,
      a.addrPrim >>> 48, a.addrPrim >>> 40, a.addrPrim >>> 32, a.addrPrim >>> 24, a.addrPrim >>> 16,
      a.addrPrim >>> 8, a.addrPrim] i).setWidth 8) := by
  funext i
  fin_cases i <;> rfl

/-- Addresses with the same bytes are the same. -/
theorem getArray_injective {a b : Ipv6Address} (h : a.getArray = b.getArray) : a = b := by
  obtain ⟨a⟩ := a
  obtain ⟨b⟩ := b
  refine congrArg Ipv6Address.mk (BitVec.eq_of_getLsbD_eq fun j hj => ?_)
  -- bit `j` is in byte `15 - j / 8`
  have hbyte := congrFun h ⟨15 - j / 8, by omega⟩
  have hbit := congrArg (fun x : UInt8 => x.toBitVec.getLsbD (j % 8)) hbyte
  have hlt : j % 8 < 8 := Nat.mod_lt j (by norm_num)
  have hplace : 120 - 8 * (15 - j / 8) + j % 8 = j := by omega
  simpa [getArray, hlt, hplace] using hbit

/-- The bytes of an address pack to it. -/
@[simp] theorem fromArray_getArray (a : Ipv6Address) : fromArray a.getArray = a :=
  getArray_injective (getArray_fromArray _)

/-- `Ord`. -/
def cmp (a other : Ipv6Address) : Ordering := compare a.addrPrim other.addrPrim

end Ipv6Address

/-! ## Addresses made from a MAC address (`setup_virtio_net` in `lib.rs`) -/

namespace MacAddress

/-- The link-local address. -/
def llaEui64 (a : MacAddress) : Ipv6Address :=
  let m := a.getArray
  .fromArray ![0xfe, 0x80, 0x00, 0x00, 0x00, 0x00, 0x00, 0x00, m 0, m 1, m 2, 0xff, 0xfe, m 3, m 4, m 5]

/-- The solicited-node multicast address. -/
def snmcast (a : MacAddress) : Ipv6Address :=
  let m := a.getArray
  .fromArray ![0xff, 0x02, 0x00, 0x00, 0x00, 0x00, 0x00, 0x00, 0x00, 0x00, 0x00, 0x01, 0xff, m 3, m 4, m 5]

def snmcastMacaddr (a : MacAddress) : MacAddress :=
  let m := a.getArray
  .new ![0x33, 0x33, 0xff, m 3, m 4, m 5]

end MacAddress

end Urchin
