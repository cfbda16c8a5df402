import Urchin.Proof.Queue
import Urchin.Spec.QueueLayout

/-!
# A virtqueue's tables do not touch

* `addrs_toNat`: the addresses of `Virtqueue::new` as numbers, for an allocation that
  ends inside the address space.
* `Virtqueue.new_laidOut`: the descriptor table and the two rings lie inside the
  allocation, apart from one another, aligned, and the device is told where they are.
-/

namespace Urchin

/-- The two halves of an address make the address. -/
theorem join_halves (x : UInt64) :
    (x >>> 32).toUInt32.toUInt64 <<< 32 ||| (x &&& 0xffffffff).toUInt32.toUInt64 = x := by
  have hlt := x.toNat_lt
  have hhigh : (x >>> 32).toUInt32.toUInt64.toNat = x.toNat / 2 ^ 32 := by
    rw [UInt32.toNat_toUInt64, UInt64.toNat_toUInt32, UInt64.toNat_shiftRight, Nat.shiftRight_eq_div_pow]
    simp only [UInt64.reduceToNat, Nat.reduceMod]
    omega
  have hlow : (x &&& 0xffffffff).toUInt32.toUInt64.toNat = x.toNat % 2 ^ 32 := by
    rw [UInt32.toNat_toUInt64, UInt64.toNat_toUInt32, UInt64.toNat_and]
    simp only [UInt64.reduceToNat]
    rw [Nat.and_two_pow_sub_one_eq_mod x.toNat 32, Nat.mod_mod]
  apply UInt64.toNat_inj.1
  rw [UInt64.toNat_or, UInt64.toNat_shiftLeft, hhigh, hlow]
  simp only [UInt64.reduceToNat, Nat.reduceMod, Nat.shiftLeft_eq]
  rw [Nat.mod_eq_of_lt (by omega), mul_comm]
  exact (Nat.two_pow_add_eq_or_of_lt (i := 32) (Nat.mod_lt _ (by norm_num)) _).symm.trans (Nat.div_add_mod _ _)

theorem region_disjoint {a b : UInt64} {n k : ℕ} (h : a.toNat + n ≤ b.toNat) :
    Disjoint (region a n) (region b k) := by
  rw [Set.disjoint_left]
  rintro i ⟨_, hi⟩ ⟨hb, _⟩
  omega

theorem region_subset {a b : UInt64} {n k : ℕ} (h1 : b.toNat ≤ a.toNat) (h2 : a.toNat + n ≤ b.toNat + k) :
    region a n ⊆ region b k := Set.Ico_subset_Ico h1 h2

/-- A ring starts four bytes into its area. -/
theorem ring_toNat {a : UInt64} (h : a.toNat + 4 < 2 ^ 64) : (a + 4).toNat = a.toNat + 4 := by
  rw [UInt64.toNat_add]
  exact Nat.mod_eq_of_lt h

namespace Virtqueue

variable {size : UInt16} {base : UInt64}

theorem addrs_toNat (hfit : base.toNat + (allocSize size).toNat < 2 ^ 64) :
    (addrs size base).descriptorAddr.toNat = base.toNat ∧
      (addrs size base).availAddr.toNat = base.toNat + 16 * size.toNat ∧
      (addrs size base).usedAddr.toNat = base.toNat + ((18 * size.toNat + 5) / 4096 + 1) * 4096 := by
  have h := size.toNat_lt
  rw [allocSize_toNat] at hfit
  refine ⟨rfl, ?_, ?_⟩
  · simp only [addrs, UInt64.toNat_add, UInt64.toNat_mul, UInt16.toNat_toUInt64, UInt64.reduceToNat]
    omega
  · simp only [addrs]
    rw [UInt64.toNat_add, pageRound_toNat (availEnd_toNat size) (by omega)]
    omega

/-- The descriptor table, the avail ring and the used ring of a queue, each ring with its
trailing event field. -/
def areas (size : UInt16) (a : Addrs) : List (Set ℕ) :=
  [region a.descriptorAddr (16 * size.toNat), region a.availAddr (6 + 2 * size.toNat),
    region a.usedAddr (6 + 8 * size.toNat)]

/-- A queue of a size, laid over an allocation. -/
structure LaidOut (size : UInt16) (base : UInt64) (q : Virtqueue) : Prop where
  allocated : q.layout = ⟨allocSize size, 4096⟩
  apart : (areas size (addrs size base)).Pairwise Disjoint
  inside : ∀ A ∈ areas size (addrs size base), A ⊆ region base q.layout.size.toNat
  availRing : region (addrs size base).availRing (2 * size.toNat) ⊆
    region (addrs size base).availAddr (6 + 2 * size.toNat)
  usedRing : region (addrs size base).usedRing (8 * size.toNat) ⊆
    region (addrs size base).usedAddr (6 + 8 * size.toNat)
  descriptorAligned : 16 ∣ (addrs size base).descriptorAddr.toNat
  availAligned : 2 ∣ (addrs size base).availAddr.toNat
  usedAligned : 4096 ∣ (addrs size base).usedAddr.toNat
  descriptorAddr : q.getDescriptorAddr = (addrs size base).descriptorAddr
  availAddr : q.getAvailAddr = (addrs size base).availAddr
  usedAddr : q.getUsedAddr = (addrs size base).usedAddr

/-- The device reads the addresses of the queue from its registers. -/
theorem deviceAddr_setupQueue (q : Virtqueue) :
    deviceAddr (VirtioMmio.setupQueue q) 0x080 = some q.getDescriptorAddr ∧
      deviceAddr (VirtioMmio.setupQueue q) 0x090 = some q.getAvailAddr ∧
      deviceAddr (VirtioMmio.setupQueue q) 0x0a0 = some q.getUsedAddr :=
  ⟨congrArg some (join_halves _), congrArg some (join_halves _), congrArg some (join_halves _)⟩

/-- **A queue's three areas are where the device looks for them, apart, and inside the
allocation**, whatever the size of the queue. -/
theorem new_laidOut (isIndirect usedInterrupt : Bool) (m : QueueMem) (halign : 4096 ∣ m.base.toNat)
    (hfit : m.base.toNat + (allocSize size).toNat < 2 ^ 64) :
    ∃ q, Virtqueue.new size isIndirect usedInterrupt m = some q ∧ LaidOut size m.base q ∧
      deviceAddr (VirtioMmio.setupQueue q) 0x080 = some (addrs size m.base).descriptorAddr ∧
      deviceAddr (VirtioMmio.setupQueue q) 0x090 = some (addrs size m.base).availAddr ∧
      deviceAddr (VirtioMmio.setupQueue q) 0x0a0 = some (addrs size m.base).usedAddr := by
  obtain ⟨hdesc, havail, hused⟩ := addrs_toNat hfit
  have hsize := size.toNat_lt
  have halloc := allocSize_toNat size
  have hpage : m.base.toNat % 4096 = 0 := Nat.mod_eq_zero_of_dvd halign
  have havailRing : (addrs size m.base).availRing.toNat = (addrs size m.base).availAddr.toNat + 4 :=
    ring_toNat (a := (addrs size m.base).availAddr) (by omega)
  have husedRing : (addrs size m.base).usedRing.toNat = (addrs size m.base).usedAddr.toNat + 4 :=
    ring_toNat (a := (addrs size m.base).usedAddr) (by omega)
  have hlayout : Layout.fromSizeAlign (allocSize size) 4096 = some ⟨allocSize size, 4096⟩ :=
    fromSizeAlign_page (by omega)
  refine ⟨_, by rw [Virtqueue.new, hlayout]; rfl, ?_, deviceAddr_setupQueue _⟩
  refine
    { allocated := rfl
      apart := ?_
      inside := ?_
      availRing := region_subset (by omega) (by omega)
      usedRing := region_subset (by omega) (by omega)
      descriptorAligned := by omega
      availAligned := by omega
      usedAligned := by omega
      descriptorAddr := rfl
      availAddr := rfl
      usedAddr := rfl }
  · -- each area ends where a later one starts, or before
    refine List.pairwise_cons.2 ⟨?_, List.pairwise_pair.2 (region_disjoint (by omega))⟩
    intro A hA
    rcases List.mem_pair.1 hA with rfl | rfl
    · exact region_disjoint (by omega)
    · exact region_disjoint (by omega)
  · intro A hA
    rcases List.mem_cons.1 hA with rfl | hA
    · exact region_subset (by omega) (by simp only; omega)
    rcases List.mem_pair.1 hA with rfl | rfl
    · exact region_subset (by omega) (by simp only; omega)
    · exact region_subset (by omega) (by simp only; omega)

/-- A network queue of 256 entries at two megabytes. -/
theorem new_laidOut_network : ∃ q, Virtqueue.new 256 false true { QueueMem.zero with base := 0x200000 } = some q ∧
    LaidOut 256 0x200000 q ∧
    deviceAddr (VirtioMmio.setupQueue q) 0x080 = some (addrs 256 0x200000).descriptorAddr ∧
    deviceAddr (VirtioMmio.setupQueue q) 0x090 = some (addrs 256 0x200000).availAddr ∧
    deviceAddr (VirtioMmio.setupQueue q) 0x0a0 = some (addrs 256 0x200000).usedAddr :=
  new_laidOut false true { QueueMem.zero with base := 0x200000 } (by decide) (by decide)

end Virtqueue

end Urchin
