import Urchin.Proof.LocalRoute
import Urchin.Proof.Lookup

/-!
# Neighbor advertisements

`icmpv6-in-local` registers the target of a neighbor advertisement under the prefix length
`0xffffffff`, for which there is no table, so every advertisement halts the kernel
(`neighbor_advertisement_never`). Nothing else writes the IPv6 tables: they stay in every
run as start-up has left them (`ipv6_tables_fixed`).
-/

namespace Urchin

open Exec Route

namespace Icmpv6InLocal

/-- A neighbor advertisement for `t` with the target's link-layer address `m` as its only
option. -/
structure IsAdvertisement (f : DataFromNetif) (t : Fin 16 → UInt8) (m : Fin 6 → UInt8) : Prop where
  nexthdr : f.buffer.peek 20 = 58
  type : f.buffer.peek 54 = 0x88
  code : f.buffer.peek 55 = 0
  target : f.buffer.field 62 16 = t
  option : f.buffer.peek 78 = 2 ∧ f.buffer.peek 79 = 1
  mac : f.buffer.field 80 6 = m
  payload : 32 ≤ (length f.buffer).toNat
  fits : 54 + (length f.buffer).toNat ≤ f.buffer.sliceLen

/-- What processing an advertisement should do: it does not panic, the target has a
resolved route on the interface it came in on, and an adjacency, which is the old one if
that was permanent. -/
def Learns (heap : ℕ → Block) (w : World) (fs : List DataFromNetif) (f : DataFromNetif) (t : Ipv6Address)
    (m : MacAddress) : Prop :=
  ∃ w', process heap w fs = .ok w' ∧
    findIpv6Fib w'.ipv6Fib t 128 = .ok (some ⟨m, t, f.netif, .AdjacentResolved⟩) ∧
    ∃ adj, w'.ipv6Adjacent t = some adj ∧
      ∀ old, w.ipv6Adjacent t = some old → old.expireTime = none → adj = old

theorem processFrame_advertisement (heap : ℕ → Block) (w : World) {f : DataFromNetif}
    (h : f.buffer.peek 54 = 0x88) : ∃ p, processFrame heap w f = .panic p w := by
  have hread : ∀ i, f.buffer.read i = .ok (f.buffer.peek i) ∨ f.buffer.read i = .error .bounds := by
    intro i
    unfold Buffer.read
    split
    · exact .inl rfl
    · exact .inr rfl
  obtain ⟨p, hp⟩ := neighborAdvertisement_panics w f
  unfold processFrame
  simp only
  rcases hread 14 with h14 | h14
  · rw [h14, attempt_ok]
    rcases hread 54 with h54 | h54
    · rw [h54, attempt_ok, h]
      exact ⟨p, hp⟩
    · rw [h54]
      exact ⟨_, rfl⟩
  · rw [h14]
    exact ⟨_, rfl⟩

/-- **No neighbor advertisement is ever learnt.** In every state and for every batch with
an advertisement in it, whatever it advertises, `icmpv6-in-local` panics. -/
theorem neighbor_advertisement_never (heap : ℕ → Block) (w : World) (fs : List DataFromNetif)
    (f : DataFromNetif) (hf : f ∈ fs) (t : Fin 16 → UInt8) (m : Fin 6 → UInt8) (h : IsAdvertisement f t m) :
    (process heap w fs).isOk = false ∧ ¬ Learns heap w fs f (.fromArray t) (.new m) := by
  have hnot : ∀ w', process heap w fs ≠ .ok w' := by
    intro w' hok
    obtain ⟨w₁, w₂, hround⟩ := forEach_round fs hok hf
    obtain ⟨p, hp⟩ := processFrame_advertisement heap w₁ h.type
    rw [hp] at hround
    cases hround
  constructor
  · cases hproc : process heap w fs with
    | ok w' => exact absurd hproc (hnot w')
    | panic p w' => rfl
  · rintro ⟨w', hok, -⟩
    exact hnot w' hok

/-- `fe80::600:ff:fe00:9` advertises its address. -/
def advertisementFrame : DataFromNetif :=
  .ofBytes ⟨0, .new ![2, 0, 0, 0, 0, 1]⟩
    ([2, 0, 0, 0, 0, 1, 4, 0, 0, 0, 0, 9, 0x86, 0xdd] ++ [0x60, 0, 0, 0, 0, 32, 58, 0xff] ++
      [0xfe, 0x80, 0, 0, 0, 0, 0, 0, 6, 0, 0, 0xff, 0xfe, 0, 0, 9] ++
      [0xfe, 0x80, 0, 0, 0, 0, 0, 0, 2, 0, 0, 0xff, 0xfe, 0, 0, 1] ++
      [0x88, 0, 0, 0, 0x60, 0, 0, 0] ++ [0xfe, 0x80, 0, 0, 0, 0, 0, 0, 6, 0, 0, 0xff, 0xfe, 0, 0, 9] ++
      [2, 1, 4, 0, 0, 0, 0, 9])

theorem advertisementFrame_ok : IsAdvertisement advertisementFrame
    ![0xfe, 0x80, 0, 0, 0, 0, 0, 0, 6, 0, 0, 0xff, 0xfe, 0, 0, 9] ![4, 0, 0, 0, 0, 9] := by
  constructor <;> decide +kernel

theorem neighbor_advertisement_never_test : ¬ Learns pages World.test [advertisementFrame] advertisementFrame
    (.fromArray ![0xfe, 0x80, 0, 0, 0, 0, 0, 0, 6, 0, 0, 0xff, 0xfe, 0, 0, 9]) (.new ![4, 0, 0, 0, 0, 9]) :=
  (neighbor_advertisement_never pages World.test [advertisementFrame] advertisementFrame List.mem_cons_self _ _
    advertisementFrame_ok).2

/-- **The router of `start_rust` halts** when a host advertises itself. -/
theorem neighbor_advertisement_halts : IsAdvertisement advertisementFrame
      ![0xfe, 0x80, 0, 0, 0, 0, 0, 0, 6, 0, 0, 0xff, 0xfe, 0, 0, 9] ![4, 0, 0, 0, 0, 9] ∧
    World.start World.testIfs = .ok World.test ∧
    (process pages World.test [advertisementFrame]).isOk = false :=
  ⟨advertisementFrame_ok, World.test_eq, by decide +kernel⟩

end Icmpv6InLocal

/-! ## The IPv6 tables -/

/-- **The IPv6 tables are fixed after start-up**, in every run, also when it panics. -/
theorem ipv6_tables_fixed (heap : ℕ → Block) (w : World) (batches : List (List DataFromNetif)) :
    (w.after heap batches).ipv6Fib = w.ipv6Fib ∧ (w.after heap batches).ipv6Adjacent = w.ipv6Adjacent := by
  refine forEach_inv (P := fun w' : World => w'.ipv6Fib = w.ipv6Fib ∧ w'.ipv6Adjacent = w.ipv6Adjacent) batches
    (fun b _ w₁ hw₁ => ?_) w ⟨rfl, rfl⟩
  refine ethernetIn_inv (P := fun w' : World => w'.ipv6Fib = w.ipv6Fib ∧ w'.ipv6Adjacent = w.ipv6Adjacent)
    heap b ?_ ?_ ?_ hw₁
  · intro f w' hw'
    exact hw'
  · intro f w' hw'
    have h := ArpIn.processFrame_others heap w' f
    rw [h.fib, h.adjacent]
    exact hw'
  · intro w' w'' ht hw'
    simp only [World.tables, Prod.mk.injEq] at ht
    rw [ht.2.1, ht.2.2.2.1]
    exact hw'

/-- Every address with a route is link-local or multicast. -/
def Ipv6FirstByte (fib : Ipv6Fib) : Prop :=
  ∀ i a e, fib i a = some e → a.firstByte = 0xfe ∨ a.firstByte = 0xff

theorem Ipv6FirstByte.insert {fib : Ipv6Fib} (h : Ipv6FirstByte fib) {r : Reg Ipv6Address ForwardInformationBaseIpv6}
    (hr : r.key.firstByte = 0xfe ∨ r.key.firstByte = 0xff) : Ipv6FirstByte (fib.insert r) := by
  intro i a e he
  rw [Tables.insert_apply] at he
  split at he
  · rename_i hk
    rw [← hk.2]
    exact hr
  · exact h i a e he

theorem Ipv6FirstByte.setupIpv6 {w : World} (h : Ipv6FirstByte w.ipv6Fib) (nif : Netif) {addr : Ipv6Address}
    (macaddr : MacAddress) (ha : addr.firstByte = 0xfe ∨ addr.firstByte = 0xff) :
    ∃ w', w.setupIpv6 nif addr macaddr = .ok w' ∧ Ipv6FirstByte w'.ipv6Fib :=
  ⟨_, rfl, h.insert (r := ⟨128, addr, ⟨macaddr, addr, nif, .Local⟩⟩) ha⟩

/-- Setting up an interface: its link-local address and two multicast addresses. -/
theorem Ipv6FirstByte.setupVirtioNet {w : World} (h : Ipv6FirstByte w.ipv6Fib) (i : Interface) :
    ∃ w', w.setupVirtioNet i = .ok w' ∧ Ipv6FirstByte w'.ipv6Fib := by
  have hlla : (Interface.llaEui64 i.netif).firstByte = 0xfe := by
    unfold Interface.llaEui64 MacAddress.llaEui64 Ipv6Address.firstByte
    simp only [Ipv6Address.getArray_fromArray]
    rfl
  have hsnm : (Interface.snmcast i.netif).firstByte = 0xff := by
    unfold Interface.snmcast MacAddress.snmcast Ipv6Address.firstByte
    simp only [Ipv6Address.getArray_fromArray]
    rfl
  have hall : Interface.allnodemcast.firstByte = 0xff := by
    unfold Interface.allnodemcast Ipv6Address.firstByte
    simp only [Ipv6Address.getArray_fromArray]
    rfl
  have h₀ : Ipv6FirstByte ((w.setupMac i.netif i.netif.macaddr).setupIpv4 i.netif i.ipv4addr i.prefixLen).ipv6Fib := h
  obtain ⟨w₁, hw₁, h₁⟩ := h₀.setupIpv6 i.netif i.netif.macaddr (.inl hlla)
  have h₁' : Ipv6FirstByte (w₁.setupMac i.netif (Interface.snmcastMacaddr i.netif)).ipv6Fib := h₁
  obtain ⟨w₂, hw₂, h₂⟩ := h₁'.setupIpv6 i.netif (Interface.snmcastMacaddr i.netif) (.inr hsnm)
  have h₂' : Ipv6FirstByte (w₂.setupMac i.netif Interface.allnodemcastMacaddr).ipv6Fib := h₂
  obtain ⟨w₃, hw₃, h₃⟩ := h₂'.setupIpv6 i.netif Interface.allnodemcastMacaddr (.inr hall)
  refine ⟨w₃, ?_, h₃⟩
  unfold World.setupVirtioNet
  simp only [hw₁, hw₂, hw₃, bind, Except.bind]

theorem World.start_ipv6FirstByte {ifs : List Interface} {w₀ : World} (hstart : World.start ifs = .ok w₀) :
    Ipv6FirstByte w₀.ipv6Fib :=
  World.start_inv (P := fun _ w => Ipv6FirstByte w.ipv6Fib) hstart (fun i _ _ _ h => h.setupVirtioNet i)
    (fun _ _ _ h => by cases h)

/-- In every run, a query that finds a route is for a link-local or a multicast address. -/
theorem findIpv6Fib_firstByte (heap : ℕ → Block) {ifs : List Interface} {w₀ : World}
    (hstart : World.start ifs = .ok w₀) (batches : List (List DataFromNetif)) {a : Ipv6Address}
    (h1 : a.firstByte ≠ 0xfe) (h2 : a.firstByte ≠ 0xff) :
    findIpv6Fib (w₀.after heap batches).ipv6Fib a 128 = .ok none := by
  rw [findIpv6Fib_eq, (ipv6_tables_fixed heap w₀ batches).1]
  congr 1
  rw [descend_eq_none]
  intro i _
  cases he : w₀.ipv6Fib i a with
  | none => rfl
  | some e =>
    rcases World.start_ipv6FirstByte hstart i a e he with h | h
    · exact absurd h h1
    · exact absurd h h2

end Urchin
