import Urchin.Proof.LocalRoute
import Urchin.Proof.Lookup

/-!
# The connected subnet

`setup_virtio_net` registers the subnet of an interface in the table of the prefix length
it is given, but under the address masked to 24 bits. A lookup masks the destination to
the length of the table, so the subnet is found, and nothing else with it, exactly if both
masks leave the same of the interface's address (`connected_subnet_iff`).
-/

namespace Urchin

open Exec Route

/-- The first `p` bits of the addresses are the same. -/
def Ipv4Address.SamePrefix (p : ℕ) (a b : Ipv4Address) : Prop :=
  ∀ k < p, a.addrPrim.toBitVec.getMsbD k = b.addrPrim.toBitVec.getMsbD k

/-- What masking keeps of an address. -/
theorem Ipv4Address.masked_getMsbD {p : ℕ} (h1 : 1 ≤ p) (h2 : p ≤ 32) (a : Ipv4Address) (k : ℕ) :
    (a.masked (UInt32.ofNat p)).addrPrim.toBitVec.getMsbD k = (a.addrPrim.toBitVec.getMsbD k && decide (k < p)) := by
  have hshift : ∀ p : Fin 33, 1 ≤ p.val →
      ((0xffffffff : UInt32) <<< (32 - UInt32.ofNat p)).toBitVec = BitVec.allOnes 32 <<< (32 - p.val) := by
    decide +kernel
  unfold Ipv4Address.masked
  rw [UInt32.toBitVec_and, hshift ⟨p, by omega⟩ h1, BitVec.getMsbD_and, BitVec.getMsbD_shiftLeft]
  have hones : (BitVec.allOnes 32).getMsbD (k + (32 - p)) = decide (k < p) := by
    rw [BitVec.getMsbD_eq_getLsbD, BitVec.getLsbD_allOnes]
    by_cases hk : k < p
    · rw [decide_eq_true (show k + (32 - p) < 32 by omega), decide_eq_true (by omega), decide_eq_true hk]
      rfl
    · rw [decide_eq_false (show ¬ k + (32 - p) < 32 by omega), decide_eq_false hk]
      rfl
  rw [hones]

/-- Addresses are the same after masking if and only if their first bits are. -/
theorem Ipv4Address.masked_eq_iff {p : ℕ} (h1 : 1 ≤ p) (h2 : p ≤ 32) (a b : Ipv4Address) :
    a.masked (UInt32.ofNat p) = b.masked (UInt32.ofNat p) ↔ a.SamePrefix p b := by
  constructor
  · intro h k hk
    have hbit := congrArg (fun x : Ipv4Address => x.addrPrim.toBitVec.getMsbD k) h
    simpa [masked_getMsbD h1 h2, hk] using hbit
  · intro h
    have hbits : (a.masked (UInt32.ofNat p)).addrPrim.toBitVec = (b.masked (UInt32.ofNat p)).addrPrim.toBitVec := by
      apply BitVec.eq_of_getMsbD_eq
      intro k _
      rw [masked_getMsbD h1 h2, masked_getMsbD h1 h2]
      by_cases hk : k < p
      · rw [h k hk]
      · simp [hk]
    generalize a.masked (UInt32.ofNat p) = x at hbits
    generalize b.masked (UInt32.ofNat p) = y at hbits
    obtain ⟨x⟩ := x
    obtain ⟨y⟩ := y
    exact congrArg Ipv4Address.mk (UInt32.toBitVec_inj.1 hbits)

/-- Below length 32, another address has the same prefix. -/
theorem Ipv4Address.exists_samePrefix {p : ℕ} (h : p ≤ 31) (a : Ipv4Address) : ∃ b, b ≠ a ∧ a.SamePrefix p b := by
  refine ⟨⟨a.addrPrim ^^^ 1⟩, ?_, ?_⟩
  · intro he
    have : a.addrPrim ^^^ 1 = a.addrPrim := congrArg Ipv4Address.addrPrim he
    have h0 : (1 : UInt32) = 0 := by
      rw [← UInt32.xor_right_inj a.addrPrim, this, UInt32.xor_zero]
    exact absurd h0 (by decide)
  · intro k hk
    have hone : (1#32).getMsbD k = false := by
      rw [BitVec.getMsbD_eq_getLsbD, BitVec.getLsbD_one]
      simp
      omega
    rw [UInt32.toBitVec_xor, BitVec.getMsbD_xor]
    change _ = (a.addrPrim.toBitVec.getMsbD k ^^ (1#32).getMsbD k)
    rw [hone, Bool.xor_false]

/-! ## After start-up -/

/-- The entry of the subnet. -/
def Interface.adjacentRoute (i : Interface) : ForwardInformationBaseIpv4 :=
  ⟨i.netif.macaddr, i.ipv4addr, i.netif, .Adjacent⟩

/-- The subnet is reachable through the interface, and nothing else is. -/
structure Interface.Connected (i : Interface) (fib : Ipv4Fib) : Prop where
  inside : ∀ b, b ≠ i.ipv4addr → i.ipv4addr.SamePrefix i.prefixLen.toNat b →
    findIpv4Fib fib b 0xffffffff = some i.adjacentRoute
  outside : ∀ b, ¬ i.ipv4addr.SamePrefix i.prefixLen.toNat b → findIpv4Fib fib b 0xffffffff = none

/-- The mask made from a prefix length belongs to the table of that length. -/
theorem ipv4MaskToPrefixlen_shift {p : UInt32} (h1 : 1 ≤ p.toNat) (h2 : p.toNat ≤ 32) :
    ipv4MaskToPrefixlen ((0xffffffff : UInt32) <<< (32 - p)) = p.toNat := by
  have key : ∀ n : Fin 33, 1 ≤ n.val →
      ipv4MaskToPrefixlen ((0xffffffff : UInt32) <<< (32 - UInt32.ofNat n)) = n := by decide +kernel
  have h := key ⟨p.toNat, by omega⟩ h1
  rwa [UInt32.ofNat_toNat] at h

/-- The two routes of an interface, as the tables hold them. -/
def Interface.routes (i : Interface) : Ipv4Fib := fun k x =>
  if i.prefixLen.toNat = k ∧ i.ipv4addr.masked 24 = x then some i.adjacentRoute
  else if k = 32 ∧ i.ipv4addr = x then some ⟨i.netif.macaddr, i.ipv4addr, i.netif, .Local⟩
  else none

theorem Interface.setup_routes {i : Interface} (h1 : 1 ≤ i.prefixLen.toNat) (h2 : i.prefixLen.toNat ≤ 31) :
    ∃ w, World.empty.setupVirtioNet i = .ok w ∧ w.ipv4Fib = i.routes := by
  obtain ⟨w, hw, -, hfib⟩ := World.empty.setupVirtioNet_ipv4 i
  refine ⟨w, hw, ?_⟩
  funext k x
  rw [hfib, registerIpv4Fib, Tables.insert_apply, ipv4MaskToPrefixlen_shift h1 (by omega), registerIpv4Fib_host]
  rfl

/-- What is found for any other address than the interface's own: the key of the subnet is
compared with the destination, masked to the length of the table. -/
theorem Interface.find_other {i : Interface} (h2 : i.prefixLen.toNat ≤ 31) {b : Ipv4Address}
    (hb : b ≠ i.ipv4addr) : findIpv4Fib i.routes b 0xffffffff =
      if i.ipv4addr.masked 24 = b.masked i.prefixLen then some i.adjacentRoute else none := by
  have hlen : UInt32.ofNat i.prefixLen.toNat = i.prefixLen := UInt32.ofNat_toNat
  -- the other tables have nothing for `b`
  have hother : ∀ k, k ≠ i.prefixLen.toNat → i.routes k (b.masked (UInt32.ofNat k)) = none := by
    intro k hk
    unfold Interface.routes
    rw [if_neg (fun h => hk h.1.symm), if_neg]
    rintro ⟨rfl, he⟩
    rw [show UInt32.ofNat 32 = 32 by decide, b.masked_32] at he
    exact hb he.symm
  unfold findIpv4Fib
  rw [show ipv4MaskToPrefixlen 0xffffffff = 32 by decide]
  split
  · rename_i he
    rw [descend_eq_some]
    refine ⟨i.prefixLen.toNat, by omega, ?_, fun j hj _ => hother j (by omega)⟩
    rw [hlen, Interface.routes, if_pos ⟨rfl, he⟩]
  · rename_i he
    rw [descend_eq_none]
    intro k _
    by_cases hk : k = i.prefixLen.toNat
    · rw [hk, hlen, Interface.routes, if_neg (fun h => he h.2), if_neg (by omega)]
    · exact hother k hk

/-- **When the connected subnet is reachable.** For every interface address and every
prefix length from 1 to 31, on otherwise empty tables: start-up returns, and a lookup finds
the interface's route for all addresses of the subnet but its own, and nothing for an
address outside, if and only if the address masked to 24 bits is the address masked to
the prefix length. -/
theorem connected_subnet_iff (i : Interface) (h1 : 1 ≤ i.prefixLen.toNat) (h2 : i.prefixLen.toNat ≤ 31) :
    ∃ w, World.empty.setupVirtioNet i = .ok w ∧
      (i.Connected w.ipv4Fib ↔ i.ipv4addr.masked 24 = i.ipv4addr.masked i.prefixLen) := by
  obtain ⟨w, hw, hfib⟩ := i.setup_routes h1 h2
  have hsame : ∀ b, i.ipv4addr.masked i.prefixLen = b.masked i.prefixLen ↔
      i.ipv4addr.SamePrefix i.prefixLen.toNat b := by
    intro b
    have h := Ipv4Address.masked_eq_iff h1 (show i.prefixLen.toNat ≤ 32 by omega) i.ipv4addr b
    rwa [UInt32.ofNat_toNat] at h
  refine ⟨w, hw, ?_⟩
  rw [hfib]
  constructor
  · -- an address that differs in its last bit is in the subnet
    intro hc
    obtain ⟨b, hb, hprefix⟩ := i.ipv4addr.exists_samePrefix h2
    have hfound := hc.inside b hb hprefix
    rw [i.find_other h2 hb] at hfound
    split at hfound
    · rename_i he
      rw [he]
      exact ((hsame b).2 hprefix).symm
    · cases hfound
  · intro he
    refine ⟨fun b hb hprefix => ?_, fun b hprefix => ?_⟩
    · rw [i.find_other h2 hb, if_pos (he.trans ((hsame b).2 hprefix))]
    · have hb : b ≠ i.ipv4addr := by
        rintro rfl
        exact hprefix fun k _ => rfl
      rw [i.find_other h2 hb, if_neg]
      intro hkey
      exact hprefix ((hsame b).1 (he.symm.trans hkey))

/-- `192.168.0.10/24`, as at boot. -/
theorem connected_subnet_iff_boot : ∃ w,
    World.empty.setupVirtioNet ⟨⟨0, .new ![2, 0, 0, 0, 0, 1]⟩, .fromArray ![192, 168, 0, 10], 24⟩ = .ok w ∧
      Interface.Connected ⟨⟨0, .new ![2, 0, 0, 0, 0, 1]⟩, .fromArray ![192, 168, 0, 10], 24⟩ w.ipv4Fib := by
  obtain ⟨w, hw, hiff⟩ := connected_subnet_iff
    ⟨⟨0, .new ![2, 0, 0, 0, 0, 1]⟩, .fromArray ![192, 168, 0, 10], 24⟩ (by decide) (by decide)
  exact ⟨w, hw, hiff.2 rfl⟩

/-- **`172.16.5.1/16`**: `172.16.9.9` is in the subnet and is not found. **`192.168.0.200/25`**:
`192.168.0.5` is outside and is found. -/
theorem connected_subnet_wrong :
    (Ipv4Address.fromArray ![172, 16, 5, 1]).masked 16 = (Ipv4Address.fromArray ![172, 16, 9, 9]).masked 16 ∧
    (World.empty.setupVirtioNet ⟨⟨0, .new ![2, 0, 0, 0, 0, 1]⟩, .fromArray ![172, 16, 5, 1], 16⟩).map
      (fun w => findIpv4Fib w.ipv4Fib (.fromArray ![172, 16, 9, 9]) 0xffffffff) = .ok none ∧
    (Ipv4Address.fromArray ![192, 168, 0, 200]).masked 25 ≠ (Ipv4Address.fromArray ![192, 168, 0, 5]).masked 25 ∧
    (World.empty.setupVirtioNet ⟨⟨0, .new ![2, 0, 0, 0, 0, 1]⟩, .fromArray ![192, 168, 0, 200], 25⟩).map
      (fun w => (findIpv4Fib w.ipv4Fib (.fromArray ![192, 168, 0, 5]) 0xffffffff).map
        ForwardInformationBase.fibType) = .ok (some .Adjacent) := by
  refine ⟨by decide +kernel, by decide +kernel, by decide +kernel, by decide +kernel⟩

end Urchin
