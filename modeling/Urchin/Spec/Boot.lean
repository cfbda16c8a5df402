import Urchin.Spec.Nodes

/-!
# Start-up (`setup_virtio_net` in `lib.rs`)

What `start_rust` registers for an interface: its MAC address, the two multicast MAC
addresses of IPv6 neighbor discovery, its IPv4 address with the connected subnet,
and its IPv6 addresses. `World.start` does so for a list of interfaces, from empty
tables; `World.startRust` does so for those of the source.
-/

namespace Urchin

open Exec

/-- An interface and the IPv4 address and prefix length it gets. -/
structure Interface where
  netif : Netif
  ipv4addr : Ipv4Address
  prefixLen : UInt32

namespace Interface

/-- The link-local address made from the MAC address. -/
def llaEui64 (nif : Netif) : Ipv6Address := nif.macaddr.llaEui64

/-- The solicited-node multicast address. -/
def snmcast (nif : Netif) : Ipv6Address := nif.macaddr.snmcast

def snmcastMacaddr (nif : Netif) : MacAddress := nif.macaddr.snmcastMacaddr

/-- The all-nodes multicast address. -/
def allnodemcast : Ipv6Address :=
  .fromArray ![0xff, 0x02, 0x00, 0x00, 0x00, 0x00, 0x00, 0x00, 0x00, 0x00, 0x00, 0x00, 0x00, 0x00, 0x00, 0x01]

def allnodemcastMacaddr : MacAddress := .new ![0x33, 0x33, 0x00, 0x00, 0x00, 0x01]

/-- The addresses `setup_virtio_net` registers as local in the MAC table. -/
def localMacs (i : Interface) : List MacAddress :=
  [i.netif.macaddr, snmcastMacaddr i.netif, allnodemcastMacaddr]

end Interface

namespace World

/-- The three registrations of an IPv6 address. -/
def setupIpv6 (w : World) (nif : Netif) (addr : Ipv6Address) (macaddr : MacAddress) :
    Except Panic World := do
  let fib ← registerIpv6Fib w.ipv6Fib addr 128 macaddr addr nif .Local
  .ok { w with
    ipv6Adjacent := registerIpv6Adjacent w.ipv6Adjacent addr macaddr nif true none
    ipv6Fib := fib }

def setupMac (w : World) (nif : Netif) (macaddr : MacAddress) : World :=
  { w with macAddrTable := registerMacaddress w.macAddrTable macaddr nif true none }

/-- The registrations of the IPv4 address: the address itself, and the connected
subnet. -/
def setupIpv4 (w : World) (nif : Netif) (ipv4addr : Ipv4Address) (prefixLen : UInt32) : World :=
  let macaddr := nif.macaddr
  let fib := registerIpv4Fib w.ipv4Fib ipv4addr 0xffffffff macaddr ipv4addr nif .Local
  { w with
    ipv4Adjacent := registerIpv4Adjacent w.ipv4Adjacent ipv4addr macaddr nif true none
    ipv4Fib := registerIpv4Fib fib (ipv4addr.masked 24) ((0xffffffff : UInt32) <<< (32 - prefixLen))
      macaddr ipv4addr nif .Adjacent }

/-- `setup_virtio_net`, once the driver instance exists. -/
def setupVirtioNet (w : World) (i : Interface) : Except Panic World := do
  let nif := i.netif
  let w := w.setupMac nif nif.macaddr
  let w := w.setupIpv4 nif i.ipv4addr i.prefixLen
  let w ← w.setupIpv6 nif (Interface.llaEui64 nif) nif.macaddr
  let w := w.setupMac nif (Interface.snmcastMacaddr nif)
  let w ← w.setupIpv6 nif (Interface.snmcast nif) (Interface.snmcastMacaddr nif)
  let w := w.setupMac nif Interface.allnodemcastMacaddr
  w.setupIpv6 nif Interface.allnodemcast Interface.allnodemcastMacaddr

/-- The state after the interfaces have been set up. -/
def start (ifs : List Interface) : Except Panic World := ifs.foldlM setupVirtioNet World.empty

/-- The two interfaces of `start_rust`, with the MAC addresses of their devices. -/
def interfaces (mac0 mac1 : MacAddress) : List Interface :=
  [⟨⟨0, mac0⟩, .fromArray ![192, 168, 0, 10], 24⟩, ⟨⟨1, mac1⟩, .fromArray ![192, 168, 10, 10], 24⟩]

def startRust (mac0 mac1 : MacAddress) : Except Panic World := start (interfaces mac0 mac1)

end World

end Urchin
