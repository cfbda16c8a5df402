import Urchin.Exec.Outcome
import Urchin.Route.Longest
import Urchin.Spec.Address

/-!
# Forwarding and adjacency tables (`net/fib.rs`)

The IPv4 forwarding base is 33 tables, one per prefix length, the IPv6 one 129. A
`BTreeMap` is a function to `Option`. The three adjacency tables share one
registration rule (`registerAdjacent`): an entry without expiry time is permanent.
-/

namespace Urchin

open Exec Route

/-- A network interface, as the tables and the frames refer to it. -/
structure Netif where
  id : ℕ
  macaddr : MacAddress
  deriving DecidableEq

inductive FIBType where
  | Remote
  | Adjacent
  | AdjacentResolved
  | Local
  deriving DecidableEq

/-- `ForwardInformationBaseIpv4` and `ForwardInformationBaseIpv6`. -/
structure ForwardInformationBase (α : Type) where
  nexthopMacaddress : MacAddress
  nexthopAddress : α
  netif : Netif
  fibType : FIBType
  deriving DecidableEq

abbrev ForwardInformationBaseIpv4 := ForwardInformationBase Ipv4Address

abbrev ForwardInformationBaseIpv6 := ForwardInformationBase Ipv6Address

/-! ## IPv4 -/

def ipv4MaskToPrefixlen (mask : UInt32) : ℕ :=
  match mask with
  | 0xffffffff => 32
  | 0xfffffffe => 31
  | 0xfffffffc => 30
  | 0xfffffff8 => 29
  | 0xfffffff0 => 28
  | 0xffffffe0 => 27
  | 0xffffffc0 => 26
  | 0xffffff80 => 25
  | 0xffffff00 => 24
  | 0xfffffe00 => 23
  | 0xfffffc00 => 22
  | 0xfffff800 => 21
  | 0xfffff000 => 20
  | 0xffffe000 => 19
  | 0xffffc000 => 18
  | 0xffff8000 => 17
  | 0xffff0000 => 16
  | 0xfffe0000 => 15
  | 0xfffc0000 => 14
  | 0xfff80000 => 13
  | 0xfff00000 => 12
  | 0xffe00000 => 11
  | 0xffc00000 => 10
  | 0xff800000 => 9
  | 0xff000000 => 8
  | 0xfe000000 => 7
  | 0xfc000000 => 6
  | 0xf8000000 => 5
  | 0xf0000000 => 4
  | 0xe0000000 => 3
  | 0xc0000000 => 2
  | 0x80000000 => 1
  | 0x00000000 => 0
  | _ => 0

/-- `IPV4_FIB_INDEX`. -/
abbrev Ipv4Fib := Tables Ipv4Address ForwardInformationBaseIpv4

def registerIpv4Fib (fib : Ipv4Fib) (ipAddress : Ipv4Address) (mask : UInt32)
    (nexthopMacaddress : MacAddress) (nexthopAddress : Ipv4Address) (netif : Netif)
    (fibType : FIBType) : Ipv4Fib :=
  let fibIndex := ipv4MaskToPrefixlen mask
  fib.insert ⟨fibIndex, ipAddress, ⟨nexthopMacaddress, nexthopAddress, netif, fibType⟩⟩

/-- The loop runs from the query's length down to zero, and masks the address to
the length of each table. -/
def findIpv4Fib (fib : Ipv4Fib) (ipAddress : Ipv4Address) (mask : UInt32) :
    Option ForwardInformationBaseIpv4 :=
  let fibIndex := ipv4MaskToPrefixlen mask
  descend (fun i => fib i (ipAddress.masked (UInt32.ofNat i))) fibIndex

/-! ## IPv6 -/

/-- `IPV6_FIB_INDEX`. -/
abbrev Ipv6Fib := Tables Ipv6Address ForwardInformationBaseIpv6

/-- A prefix length that has no table panics. -/
def registerIpv6Fib (fib : Ipv6Fib) (ipAddress : Ipv6Address) (prefixLen : UInt32)
    (nexthopMacaddress : MacAddress) (nexthopAddress : Ipv6Address) (netif : Netif)
    (fibType : FIBType) : Except Panic Ipv6Fib :=
  if prefixLen.toNat < 129 then
    .ok (fib.insert ⟨prefixLen.toNat, ipAddress, ⟨nexthopMacaddress, nexthopAddress, netif, fibType⟩⟩)
  else .error .bounds

/-- The loop runs from the query's length down to zero, and masks the address to
the length of the query in every table. -/
def findIpv6Fib (fib : Ipv6Fib) (ipAddress : Ipv6Address) (prefixLen : UInt32) :
    Except Panic (Option ForwardInformationBaseIpv6) :=
  if prefixLen.toNat < 129 then
    .ok (descend (fun i => fib i (ipAddress.masked prefixLen)) prefixLen.toNat)
  else .error .bounds

/-! ## Adjacencies -/

/-- The entry is permanent if it has no expiry time. -/
structure AdjacentInformation where
  macAddress : MacAddress
  netif : Netif
  isLocal : Bool
  expireTime : Option UInt64
  deriving DecidableEq

/-- An adjacency table. -/
abbrev AdjacentTable (κ : Type) := κ → Option AdjacentInformation

/-- What the three registration functions do: a permanent entry stays. -/
def registerAdjacent {κ : Type} [DecidableEq κ] (adjTable : AdjacentTable κ) (key : κ)
    (info : AdjacentInformation) : AdjacentTable κ :=
  match adjTable key with
  | some adj =>
    match adj.expireTime with
    | some _ => Function.update adjTable key (some info)
    | none => adjTable
  | none => Function.update adjTable key (some info)

def registerIpv4Adjacent (adjTable : AdjacentTable Ipv4Address) (ipAddress : Ipv4Address)
    (macAddress : MacAddress) (netif : Netif) (isLocal : Bool) (expireTime : Option UInt64) :
    AdjacentTable Ipv4Address :=
  registerAdjacent adjTable ipAddress ⟨macAddress, netif, isLocal, expireTime⟩

def registerIpv6Adjacent (adjTable : AdjacentTable Ipv6Address) (ipAddress : Ipv6Address)
    (macAddress : MacAddress) (netif : Netif) (isLocal : Bool) (expireTime : Option UInt64) :
    AdjacentTable Ipv6Address :=
  registerAdjacent adjTable ipAddress ⟨macAddress, netif, isLocal, expireTime⟩

def registerMacaddress (mactable : AdjacentTable MacAddress) (macAddress : MacAddress)
    (netif : Netif) (isLocal : Bool) (expireTime : Option UInt64) : AdjacentTable MacAddress :=
  registerAdjacent mactable macAddress ⟨macAddress, netif, isLocal, expireTime⟩

end Urchin
