import Urchin.Spec.Fib

/-!
# Longest-prefix match

`find_ipv4_fib` masks the address to the length of the table it looks into, and so
returns the longest match of the routes registered (`ipv4_longest_match`). At length
zero the shift amount wraps and nothing is masked, so a default route is found for
`0.0.0.0` only (`ipv4_default_iff`).
`find_ipv6_fib` masks it to the length of the query in every table. A query for 128
bits then only finds routes registered for the very address, and is right exactly
if the longest matching route is such a route (`ipv6_longest_match_iff`).
-/

namespace Urchin

open Exec Route

/-! ## IPv4 -/

/-- The contiguous mask of length `n`. -/
def prefixMask (n : ℕ) : UInt32 := UInt32.ofNat (2 ^ 32 - 2 ^ (32 - n))

/-- A route with a contiguous mask and a masked address. -/
structure Ipv4Route where
  addr : Ipv4Address
  len : ℕ
  entry : ForwardInformationBaseIpv4
  len_le : len ≤ 32
  masked : addr.addrPrim &&& prefixMask len = addr.addrPrim

namespace Ipv4Route

def Matches (r : Ipv4Route) (d : Ipv4Address) : Prop := d.addrPrim &&& prefixMask r.len = r.addr.addrPrim

/-- The call that registers the route. -/
def register (fib : Ipv4Fib) (r : Ipv4Route) : Ipv4Fib :=
  registerIpv4Fib fib r.addr (prefixMask r.len) r.entry.nexthopMacaddress r.entry.nexthopAddress
    r.entry.netif r.entry.fibType

/-- What the call stores, and where. -/
def toReg (r : Ipv4Route) : Reg Ipv4Address ForwardInformationBaseIpv4 := ⟨r.len, r.addr, r.entry⟩

end Ipv4Route

/-- Every contiguous mask is in the code's table of masks. -/
theorem ipv4MaskToPrefixlen_mask {n : ℕ} (hn : n ≤ 32) : ipv4MaskToPrefixlen (prefixMask n) = n := by
  have key : ∀ n : Fin 33, ipv4MaskToPrefixlen (prefixMask n) = n := by decide +kernel
  exact key ⟨n, by omega⟩

/-- `masked` shifts in the contiguous mask, except for length zero, where the shift
amount wraps to zero. -/
theorem Ipv4Address.masked_eq {n : ℕ} (h1 : 1 ≤ n) (h2 : n ≤ 32) (d : Ipv4Address) :
    d.masked (UInt32.ofNat n) = ⟨d.addrPrim &&& prefixMask n⟩ := by
  have key : ∀ n : Fin 33, 1 ≤ n.val → (0xffffffff : UInt32) <<< (32 - UInt32.ofNat n) = prefixMask n := by
    decide +kernel
  unfold Ipv4Address.masked
  rw [key ⟨n, by omega⟩ h1]

theorem Ipv4Route.matches_iff {r : Ipv4Route} (h : 1 ≤ r.len) (d : Ipv4Address) :
    r.Matches d ↔ r.addr = d.masked (UInt32.ofNat r.len) := by
  rw [Ipv4Address.masked_eq h r.len_le]
  unfold Ipv4Route.Matches
  constructor
  · intro hm; rw [hm]
  · intro hm; rw [hm]

theorem Ipv4Route.foldl_register (routes : List Ipv4Route) :
    routes.foldl Ipv4Route.register Tables.empty = Tables.ofList (routes.map Ipv4Route.toReg) := by
  unfold Tables.ofList
  rw [List.foldl_map]
  congr 1
  funext fib r
  unfold Ipv4Route.register registerIpv4Fib
  rw [ipv4MaskToPrefixlen_mask r.len_le]
  rfl

/-- The search of `find_ipv4_fib`, on the tables a sequence of registrations leaves. -/
theorem findIpv4Fib_eq (routes : List Ipv4Route) (d : Ipv4Address) {q : ℕ} (hq : q ≤ 32) :
    findIpv4Fib (routes.foldl Ipv4Route.register Tables.empty) d (prefixMask q) =
      descend (fun i => Tables.ofList (routes.map Ipv4Route.toReg) i (d.masked (UInt32.ofNat i))) q := by
  unfold findIpv4Fib
  rw [ipv4MaskToPrefixlen_mask hq, Ipv4Route.foldl_register]

/-- **IPv4 longest-prefix match.** Whatever routes have been registered, in whatever
order, for every destination and every query length `q`:
* if a route of length `1..q` matches, the query returns the entry of the last
  registration of the longest one;
* if none does, the query returns nothing, or the entry of a route of length zero. -/
theorem ipv4_longest_match (routes : List Ipv4Route) (d : Ipv4Address) (q : Fin 33) :
    ((∃ r ∈ routes, r.Matches d ∧ 1 ≤ r.len ∧ r.len ≤ q) →
      ∃ r, Latest (fun x => x.addr = r.addr ∧ x.len = r.len) routes r ∧
        r.Matches d ∧ 1 ≤ r.len ∧ r.len ≤ q ∧
        (∀ x ∈ routes, x.Matches d → x.len ≤ q → x.len ≤ r.len) ∧
        findIpv4Fib (routes.foldl Ipv4Route.register Tables.empty) d (prefixMask q) = some r.entry) ∧
    ((¬ ∃ r ∈ routes, r.Matches d ∧ 1 ≤ r.len ∧ r.len ≤ q) →
      findIpv4Fib (routes.foldl Ipv4Route.register Tables.empty) d (prefixMask q) = none ∨
      ∃ r ∈ routes, r.len = 0 ∧
        findIpv4Fib (routes.foldl Ipv4Route.register Tables.empty) d (prefixMask q) = some r.entry) := by
  have hq : (q : ℕ) ≤ 32 := by omega
  rw [findIpv4Fib_eq routes d hq]
  constructor
  · rintro ⟨r, hr, hm, h1, h2⟩
    -- a match of positive length is a registration under the key looked up at its length
    obtain ⟨g, hg⟩ := Longest.exists (fun i => d.masked (UInt32.ofNat i)) q
      (List.mem_map_of_mem (f := Ipv4Route.toReg) hr) ((Ipv4Route.matches_iff h1 d).1 hm) h2
    obtain ⟨x, rfl, hx⟩ := (Longest.latest_key (fun i => d.masked (UInt32.ofNat i)) q hg).of_map
    obtain ⟨hkey, hlen⟩ := hg.prop
    have hrx : r.len ≤ x.len :=
      hg.greatest r.toReg (List.mem_map_of_mem hr) ⟨(Ipv4Route.matches_iff h1 d).1 hm, h2⟩
    have hx1 : 1 ≤ x.len := le_trans h1 hrx
    refine ⟨x, hx, (Ipv4Route.matches_iff hx1 d).2 hkey, hx1, hlen, ?_,
      (descend_some _ _).2 ⟨_, hg, rfl⟩⟩
    intro y hy hym hyq
    by_cases hy1 : 1 ≤ y.len
    · exact hg.greatest y.toReg (List.mem_map_of_mem hy) ⟨(Ipv4Route.matches_iff hy1 d).1 hym, hyq⟩
    · omega
  · intro hnone
    cases h : descend (fun i => Tables.ofList (routes.map Ipv4Route.toReg) i
        (d.masked (UInt32.ofNat i))) q with
    | none => exact .inl rfl
    | some v =>
      right
      obtain ⟨g, hg, rfl⟩ := (descend_some _ _).1 h
      obtain ⟨r, hr, rfl⟩ := List.mem_map.1 hg.mem
      refine ⟨r, hr, ?_, rfl⟩
      by_contra h0
      have h1 : 1 ≤ r.len := by omega
      exact hnone ⟨r, hr, (Ipv4Route.matches_iff h1 d).2 hg.prop.1, h1, hg.prop.2⟩

/-! ## The default route -/

/-- Where a registration puts its entry: the address and the mask of the call, which may
be any. -/
structure Ipv4Place where
  addr : Ipv4Address
  mask : UInt32
  deriving DecidableEq

structure Ipv4Call extends Ipv4Place where
  entry : ForwardInformationBaseIpv4

namespace Ipv4Place

/-- The table the place is in. -/
def len (p : Ipv4Place) : ℕ := ipv4MaskToPrefixlen p.mask

/-- The place is a route of length `1..32` that matches `d`. -/
def Matches (p : Ipv4Place) (d : Ipv4Address) : Prop := 1 ≤ p.len ∧ d.addrPrim &&& p.mask = p.addr.addrPrim

/-- `0.0.0.0/0`. -/
def default : Ipv4Place := ⟨⟨0⟩, 0⟩

end Ipv4Place

namespace Ipv4Call

def register (fib : Ipv4Fib) (r : Ipv4Call) : Ipv4Fib :=
  registerIpv4Fib fib r.addr r.mask r.entry.nexthopMacaddress r.entry.nexthopAddress r.entry.netif
    r.entry.fibType

/-- What the call stores, and where. -/
def toReg (r : Ipv4Call) : Reg Ipv4Address ForwardInformationBaseIpv4 := ⟨r.len, r.addr, r.entry⟩

theorem foldl_register (calls : List Ipv4Call) :
    calls.foldl register Tables.empty = Tables.ofList (calls.map toReg) := by
  unfold Tables.ofList
  rw [List.foldl_map]
  rfl

end Ipv4Call

/-- Only the contiguous mask of length `n` has table `n`, for `n` from one. -/
theorem eq_prefixMask {mask : UInt32} (h : 1 ≤ ipv4MaskToPrefixlen mask) :
    mask = prefixMask (ipv4MaskToPrefixlen mask) := by
  unfold ipv4MaskToPrefixlen at h ⊢
  split at h <;> first | rfl | omega

/-- For length zero the shift amount wraps, and nothing is masked. -/
theorem Ipv4Address.masked_zero (d : Ipv4Address) : d.masked 0 = d := by
  have hmask : (0xffffffff : UInt32) <<< (32 - (0 : UInt32)) = -1 := by decide
  unfold Ipv4Address.masked
  simp only [hmask, UInt32.and_neg_one]

/-- If no route of length `1..32` matches, the query returns what table zero holds for
the destination itself. -/
theorem findIpv4Fib_zero {calls : List Ipv4Call} {d : Ipv4Address} (h : ∀ r ∈ calls, ¬ r.Matches d) :
    findIpv4Fib (calls.foldl Ipv4Call.register Tables.empty) d 0xffffffff =
      Tables.ofList (calls.map Ipv4Call.toReg) 0 d := by
  unfold findIpv4Fib
  rw [show ipv4MaskToPrefixlen 0xffffffff = 32 by decide, Ipv4Call.foldl_register, descend_zero]
  · rw [show UInt32.ofNat 0 = 0 from rfl, d.masked_zero]
  · intro i h1 h2
    refine Tables.ofList_none.2 ?_
    rintro x hx ⟨rfl, hk⟩
    obtain ⟨r, hr, rfl⟩ := List.mem_map.1 hx
    have h1 : 1 ≤ r.len := h1
    have h2 : r.len ≤ 32 := h2
    have hk : r.addr = d.masked (UInt32.ofNat r.len) := hk
    have hmask : r.mask = prefixMask r.len := eq_prefixMask h1
    refine h r hr ⟨h1, ?_⟩
    rw [hk, Ipv4Address.masked_eq h1 h2, hmask]

/-- What a query should return for a destination without a longer match: the entry of the
last registration of `0.0.0.0/0`. -/
def DefaultFound (calls : List Ipv4Call) (d : Ipv4Address) : Prop :=
  ∀ r, Latest (fun x => x.toIpv4Place = .default) calls r →
    findIpv4Fib (calls.foldl Ipv4Call.register Tables.empty) d 0xffffffff = some r.entry

/-- A call for a place that can be told from a default route. -/
def Ipv4Place.labelled (p : Ipv4Place) : Ipv4Call :=
  ⟨p, ⟨.new fun _ => 0, p.addr, ⟨if p = .default then 0 else 1, .new fun _ => 0⟩, .Local⟩⟩

/-- **When the default route is found.** For every sequence of registrations with a
default route among them and every destination `d` that no route of length `1..32`
matches: the query returns the last default route, for all entries the registrations may
carry, if and only if `d` is `0.0.0.0` and no mask that is not contiguous has been
registered for `0.0.0.0` since. -/
theorem ipv4_default_iff (places : List Ipv4Place) (d : Ipv4Address) (hdef : .default ∈ places)
    (hnone : ∀ p ∈ places, ¬ p.Matches d) :
    (∀ calls : List Ipv4Call, calls.map Ipv4Call.toIpv4Place = places → DefaultFound calls d) ↔
      d = ⟨0⟩ ∧ Latest (fun p => p.len = 0 ∧ p.addr = ⟨0⟩) places .default := by
  constructor
  · intro h
    set calls := places.map Ipv4Place.labelled with hcalls
    have hplaces : calls.map Ipv4Call.toIpv4Place = places := by
      rw [hcalls, List.map_map]
      exact List.map_id _
    obtain ⟨r, hr⟩ := Latest.exists (p := fun x : Ipv4Call => x.toIpv4Place = .default)
      (List.mem_map_of_mem (f := Ipv4Place.labelled) hdef) rfl
    have hfind := h calls hplaces r hr
    rw [findIpv4Fib_zero (by
      intro x hx
      obtain ⟨p, hp, rfl⟩ := List.mem_map.1 hx
      exact hnone p hp)] at hfind
    -- what was found carries the label of a default route
    obtain ⟨g, hg, hval⟩ := Tables.ofList_some.1 hfind
    obtain ⟨c, rfl, hc⟩ := hg.of_map
    obtain ⟨p, -, rfl⟩ := List.mem_map.1 hc.mem
    obtain ⟨q, -, rfl⟩ := List.mem_map.1 hr.mem
    have hq : q = .default := hr.prop
    have hid : (if p = .default then 0 else 1) = (if q = .default then 0 else 1) :=
      congrArg (fun e => e.netif.id) hval
    have hp : p = .default := by
      by_contra hne
      rw [if_neg hne, if_pos hq] at hid
      cases hid
    subst hp
    have hd : (⟨0⟩ : Ipv4Address) = d := hc.prop.2
    refine ⟨hd.symm, ?_⟩
    have hmap := Latest.map (p := fun p : Ipv4Place => p.len = 0 ∧ p.addr = d) (f := Ipv4Call.toIpv4Place) hc
    rw [hplaces, ← hd] at hmap
    exact hmap
  · rintro ⟨rfl, hlat⟩ calls rfl r hr
    rw [findIpv4Fib_zero fun x hx => hnone x.toIpv4Place (List.mem_map_of_mem hx)]
    obtain ⟨c, hc, hcl⟩ := hlat.of_map
    have hcr : c = r := (hcl.strengthen (q := fun x => x.toIpv4Place = .default) (by
      intro x _ hx
      rw [hx]
      exact ⟨rfl, rfl⟩) hc).eq hr
    subst hcr
    exact Tables.ofList_some.2 ⟨c.toReg, Latest.map (f := Ipv4Call.toReg)
      (p := fun g => g.len = 0 ∧ g.key = ⟨0⟩) hcl, rfl⟩

instance (p : Ipv4Place) (d : Ipv4Address) : Decidable (p.Matches d) := inferInstanceAs (Decidable (_ ∧ _))

/-- `10.0.0.0/8`. -/
def Ipv4Place.ten : Ipv4Place := ⟨⟨0x0a000000⟩, 0xff000000⟩

/-- With default routes before and after a subnet, `0.0.0.0` gets the last one. -/
theorem ipv4_default_iff_zero :
    DefaultFound ([.default, .ten, .default].map Ipv4Place.labelled) ⟨0⟩ := by
  refine (ipv4_default_iff [.default, .ten, .default] ⟨0⟩ (by simp) (by decide +kernel)).2 ?_ _ rfl
  exact ⟨rfl, [.default, .ten], [], rfl, ⟨rfl, rfl⟩, by simp⟩

/-- **The default route is not found** for `8.8.8.8`, though nothing else is registered. -/
theorem ipv4_default_missed :
    findIpv4Fib ([Ipv4Place.default.labelled].foldl Ipv4Call.register Tables.empty) ⟨0x08080808⟩ 0xffffffff = none ∧
    ¬ DefaultFound [Ipv4Place.default.labelled] ⟨0x08080808⟩ := by
  have hnone : findIpv4Fib ([Ipv4Place.default.labelled].foldl Ipv4Call.register Tables.empty) ⟨0x08080808⟩
      0xffffffff = none := by
    rw [findIpv4Fib_zero (by decide +kernel)]
    refine Tables.ofList_none.2 ?_
    intro r hr hk
    rw [List.mem_singleton.1 hr] at hk
    exact absurd hk.2 (by decide)
  refine ⟨hnone, fun h => ?_⟩
  have hfound := h Ipv4Place.default.labelled ⟨[], [], rfl, rfl, by simp⟩
  rw [hnone] at hfound
  cases hfound

/-! ## IPv6 -/

/-- A prefix length `1..128` and an address masked to it. -/
structure Ipv6Prefix where
  addr : Ipv6Address
  len : ℕ
  len_pos : 1 ≤ len
  len_le : len ≤ 128
  masked : addr.masked (UInt32.ofNat len) = addr

def Ipv6Prefix.Matches (r : Ipv6Prefix) (d : Ipv6Address) : Prop := d.masked (UInt32.ofNat r.len) = r.addr

instance (r : Ipv6Prefix) (d : Ipv6Address) : Decidable (r.Matches d) :=
  inferInstanceAs (Decidable (_ = _))

structure Ipv6Route extends Ipv6Prefix where
  entry : ForwardInformationBaseIpv6

namespace Ipv6Route

/-- The call that registers the route. -/
def register (fib : Ipv6Fib) (r : Ipv6Route) : Except Panic Ipv6Fib :=
  registerIpv6Fib fib r.addr (UInt32.ofNat r.len) r.entry.nexthopMacaddress r.entry.nexthopAddress
    r.entry.netif r.entry.fibType

/-- What the call stores, and where. -/
def toReg (r : Ipv6Route) : Reg Ipv6Address ForwardInformationBaseIpv6 := ⟨r.len, r.addr, r.entry⟩

theorem len_toNat (r : Ipv6Route) : (UInt32.ofNat r.len).toNat = r.len := by
  rw [UInt32.toNat_ofNat']
  have := r.len_le
  omega

theorem foldlM_register (routes : List Ipv6Route) (fib : Ipv6Fib) :
    routes.foldlM register fib = .ok ((routes.map toReg).foldl Tables.insert fib) := by
  induction routes generalizing fib with
  | nil => rfl
  | cons r routes ih =>
    have hr : r.register fib = .ok (fib.insert r.toReg) := by
      unfold register registerIpv6Fib
      have := r.len_le
      rw [r.len_toNat, if_pos (by omega)]
      rfl
    rw [List.foldlM_cons, hr]
    exact ih _

end Ipv6Route

/-- A query for 128 bits looks up the whole address at every length. -/
theorem Ipv6Address.masked_128 (d : Ipv6Address) : d.masked 128 = d := by
  have hmask : BitVec.allOnes 128 <<< ((128 - (128 : UInt32)).toNat % 128) = BitVec.allOnes 128 := by
    decide
  unfold Ipv6Address.masked
  simp only [hmask, BitVec.and_allOnes]

/-- What a query for 128 bits should do: return the entry of the last registration
of the longest matching route, and nothing exactly if no route matches. -/
def LongestMatchFound (routes : List Ipv6Route) (d : Ipv6Address) : Prop :=
  ∃ fib, routes.foldlM Ipv6Route.register Tables.empty = .ok fib ∧
    (∀ r, Latest (fun x => x.addr = r.addr ∧ x.len = r.len) routes r → r.Matches d →
      (∀ x ∈ routes, x.Matches d → x.len ≤ r.len) → findIpv6Fib fib d 128 = .ok (some r.entry)) ∧
    (findIpv6Fib fib d 128 = .ok none ↔ ∀ r ∈ routes, ¬ r.Matches d)

theorem findIpv6Fib_eq (fib : Ipv6Fib) (d : Ipv6Address) :
    findIpv6Fib fib d 128 = .ok (descend (fun i => fib i d) 128) := by
  unfold findIpv6Fib
  rw [d.masked_128]
  rfl

/-- A route registered for the very address matches it. -/
theorem Ipv6Route.matches_self {r : Ipv6Route} {d : Ipv6Address} (h : r.addr = d) : r.Matches d := by
  unfold Ipv6Prefix.Matches
  rw [← h]
  exact r.masked

/-- Prefixes of one length that match one address are the same. -/
theorem Ipv6Prefix.addr_eq {p x : Ipv6Prefix} {d : Ipv6Address} (hp : p.Matches d) (hx : x.Matches d)
    (hlen : x.len = p.len) : x.addr = p.addr := by
  unfold Ipv6Prefix.Matches at hp hx
  rw [← hp, ← hx, hlen]

/-- If every longest match is registered for `d` itself, the query finds it. -/
theorem longestMatchFound_of_self {routes : List Ipv6Route} {d : Ipv6Address}
    (h : ∀ r ∈ routes, r.Matches d → (∀ x ∈ routes, x.Matches d → x.len ≤ r.len) → r.addr = d) :
    LongestMatchFound routes d := by
  refine ⟨_, Ipv6Route.foldlM_register routes _, ?_, ?_⟩
  · intro r hr hm hmax
    have hd := h r hr.mem hm hmax
    rw [findIpv6Fib_eq]
    refine congrArg Except.ok ((descend_some (fun _ => d) 128).2 ⟨r.toReg, ⟨?_, ?_⟩, rfl⟩)
    · have hlat : Latest (fun x => x.key = r.addr ∧ x.len = r.len) (routes.map Ipv6Route.toReg) r.toReg :=
        hr.map
      refine hlat.congr fun x _ => ?_
      rw [hd]
      constructor
      · rintro ⟨hk, hl⟩; exact ⟨⟨hk, by rw [hl]; exact r.len_le⟩, hl⟩
      · rintro ⟨⟨hk, -⟩, hl⟩; exact ⟨hk, hl⟩
    · rintro x hx ⟨hk, -⟩
      obtain ⟨y, hy, rfl⟩ := List.mem_map.1 hx
      exact hmax y hy (Ipv6Route.matches_self hk)
  · rw [findIpv6Fib_eq, Except.ok.injEq]
    refine (descend_none (fun _ => d) 128).trans ⟨?_, ?_⟩
    · -- a match has a longest match beside it, and that one is found
      intro hnone r hr hm
      obtain ⟨g, hg⟩ := Longest.exists (fun i => d.masked (UInt32.ofNat i)) 128
        (List.mem_map_of_mem (f := Ipv6Route.toReg) hr) hm.symm r.len_le
      obtain ⟨y, hy, rfl⟩ := List.mem_map.1 hg.mem
      have hyd : y.addr = d := h y hy hg.prop.1.symm fun x hx hxm =>
        hg.greatest x.toReg (List.mem_map_of_mem hx) ⟨hxm.symm, x.len_le⟩
      exact hnone y.toReg hg.mem ⟨hyd, y.len_le⟩
    · rintro hnone x hx ⟨hk, -⟩
      obtain ⟨y, hy, rfl⟩ := List.mem_map.1 hx
      exact hnone y hy (Ipv6Route.matches_self hk)

/-- A route for a prefix that can be told from the routes of other lengths. -/
def Ipv6Prefix.labelled (p : Ipv6Prefix) : Ipv6Route :=
  ⟨p, ⟨.new fun _ => 0, p.addr, ⟨p.len, .new fun _ => 0⟩, .Local⟩⟩

/-- If the query is right for labelled routes, every longest match is registered for
`d` itself. -/
theorem self_of_longestMatchFound {prefixes : List Ipv6Prefix} {d : Ipv6Address}
    (h : LongestMatchFound (prefixes.map Ipv6Prefix.labelled) d) {p : Ipv6Prefix} (hp : p ∈ prefixes)
    (hm : p.Matches d) (hmax : ∀ x ∈ prefixes, x.Matches d → x.len ≤ p.len) : p.addr = d := by
  obtain ⟨fib, hfib, hfound, -⟩ := h
  rw [Ipv6Route.foldlM_register, Except.ok.injEq] at hfib
  subst hfib
  obtain ⟨r, hr⟩ := Latest.exists (p := fun x : Ipv6Route => x.addr = p.addr ∧ x.len = p.len)
    (List.mem_map_of_mem (f := Ipv6Prefix.labelled) hp) ⟨rfl, rfl⟩
  obtain ⟨p', -, rfl⟩ := List.mem_map.1 hr.mem
  obtain ⟨haddr, hlen⟩ := hr.prop
  have hfind := hfound p'.labelled (by rw [haddr, hlen]; exact hr)
    (by unfold Ipv6Prefix.Matches; rw [hlen, haddr]; exact hm) (by
      intro x hx hxm
      obtain ⟨x', hx', rfl⟩ := List.mem_map.1 hx
      rw [hlen]
      exact hmax x' hx' hxm)
  -- what was found is registered for `d`, and has the length of `p`
  rw [findIpv6Fib_eq, Except.ok.injEq] at hfind
  obtain ⟨g, hg, hval⟩ := (descend_some (fun _ => d) 128).1 hfind
  obtain ⟨y, hy, rfl⟩ := List.mem_map.1 hg.mem
  obtain ⟨y', -, rfl⟩ := List.mem_map.1 hy
  have hyd : y'.addr = d := hg.prop.1
  have hylen : y'.len = p.len := (congrArg (fun e => e.netif.id) hval).trans hlen
  rw [← hyd]
  exact (Ipv6Prefix.addr_eq hm (Ipv6Route.matches_self (r := y'.labelled) hyd) hylen).symm

/-- **When the IPv6 lookup is a longest-prefix match.** For prefixes registered in
any order and any destination `d`, the query is right for all entries the routes may
carry if and only if every longest matching prefix is registered for `d` itself
(in particular if none matches). -/
theorem ipv6_longest_match_iff (prefixes : List Ipv6Prefix) (d : Ipv6Address) :
    (∀ routes : List Ipv6Route, routes.map Ipv6Route.toIpv6Prefix = prefixes → LongestMatchFound routes d) ↔
      ∀ p ∈ prefixes, p.Matches d → (∀ x ∈ prefixes, x.Matches d → x.len ≤ p.len) → p.addr = d := by
  constructor
  · intro h p hp hm hmax
    refine self_of_longestMatchFound (h _ ?_) hp hm hmax
    rw [List.map_map]
    exact List.map_id _
  · rintro h routes rfl
    apply longestMatchFound_of_self
    intro r hr hm hmax
    refine h r.toIpv6Prefix (List.mem_map_of_mem hr) hm ?_
    intro x hx hxm
    obtain ⟨y, hy, rfl⟩ := List.mem_map.1 hx
    exact hmax y hy hxm

/-- `2001:db8::/32`. -/
def Ipv6Prefix.doc : Ipv6Prefix :=
  ⟨⟨0x20010db8000000000000000000000000⟩, 32, by decide, by decide, by decide⟩

/-- The route to `2001:db8::/32` matches `2001:db8::1`, and the query finds nothing. -/
theorem ipv6_host_not_found : Ipv6Prefix.doc.Matches ⟨0x20010db8000000000000000000000001⟩ ∧
    (∃ fib, [Ipv6Prefix.doc.labelled].foldlM Ipv6Route.register Tables.empty = .ok fib ∧
      findIpv6Fib fib ⟨0x20010db8000000000000000000000001⟩ 128 = .ok none) ∧
    ¬ LongestMatchFound [Ipv6Prefix.doc.labelled] ⟨0x20010db8000000000000000000000001⟩ := by
  have hm : Ipv6Prefix.doc.Matches ⟨0x20010db8000000000000000000000001⟩ := by decide
  have hnone : findIpv6Fib (Tables.ofList [Ipv6Prefix.doc.labelled.toReg])
      ⟨0x20010db8000000000000000000000001⟩ 128 = .ok none := by
    rw [findIpv6Fib_eq, Except.ok.injEq]
    refine (descend_none (fun _ => (⟨0x20010db8000000000000000000000001⟩ : Ipv6Address)) 128).2 ?_
    rintro r hr ⟨hk, -⟩
    rw [List.mem_singleton.1 hr] at hk
    exact absurd hk (by decide)
  have hfold := Ipv6Route.foldlM_register [Ipv6Prefix.doc.labelled] Tables.empty
  refine ⟨hm, ⟨_, hfold, hnone⟩, ?_⟩
  rintro ⟨fib, hfib, -, hiff⟩
  rw [hfold, Except.ok.injEq] at hfib
  subst hfib
  exact hiff.1 hnone Ipv6Prefix.doc.labelled (List.mem_singleton.2 rfl) hm

end Urchin
