import Urchin.Locking.Order

/-!
# What locks the kernel takes

Every function that takes a `Spinlock`, by the locks it takes and the functions it calls
meanwhile: a guard is held to the end of its block, a guard that is a temporary of an
`if let` to the end of that statement. What is read and decided is left out; conditions are
choices, and loops go round any number of times. The heap (`ALLOCATOR`) is behind a lock as
well, taken and released by every allocation; those of one stretch of code are one loop.

Only code that comes to its end has runs: where it panics, the kernel halts with the guards it
holds, and whoever waits for one of them waits for ever. The `Once` behind a `lazy_static`
that is read for the first time is left out.
-/

namespace Urchin

open Locking Code

inductive KernelLock where
  /-- `Task::future`. -/
  | future (task : ℕ)
  /-- `SharedState::waker`. -/
  | waker (timer : ℕ)
  | macAddrTable
  | ipv4Adjacent
  | ipv6Adjacent
  /-- `VirtioNet::queues`. -/
  | queue (netif index : ℕ)
  /-- `VirtioNet::virtio`. -/
  | virtio (netif : ℕ)
  | allocator
  deriving DecidableEq

namespace KernelLock

/-- Code that allocates and frees. -/
def heap : Code KernelLock := .loop (.locked .allocator .skip)

/-- One thing after the other. -/
def all : List (Code KernelLock) → Code KernelLock
  | [] => .skip
  | a :: rest => .seq a (all rest)

/-! ## Tables (`net/fib.rs`) -/

def registerIpv4Fib : Code KernelLock := heap

def registerIpv6Fib : Code KernelLock := heap

def registerIpv4Adjacent : Code KernelLock := .locked .ipv4Adjacent heap

def registerIpv6Adjacent : Code KernelLock := .locked .ipv6Adjacent heap

def registerMacaddress : Code KernelLock := .locked .macAddrTable heap

/-! ## The driver (`devices/virtio/net.rs`) -/

def preXmit : Code KernelLock := heap

/-- `xmit`: the transmit queue is locked while the device is kicked. -/
def xmit (netif : ℕ) : Code KernelLock :=
  .locked (.queue netif 1) (.seq heap (maybe (.locked (.virtio netif) .skip)))

/-- A reply on some interface. -/
def reply : Code KernelLock := .any fun netif => .seq preXmit (xmit netif)

/-- `fill_rx_queue`: the receive queue is locked while the device is kicked. -/
def fillRxQueue (netif : ℕ) : Code KernelLock :=
  .locked (.queue netif 0) (maybe (.seq heap (.locked (.virtio netif) .skip)))

/-! ## Nodes (`net/*.rs`) -/

/-- `ArpIn::process`: the table is locked during the reply. -/
def arpIn : Code KernelLock :=
  .loop (all [registerIpv4Fib, registerIpv4Adjacent, .locked .ipv4Adjacent (maybe reply)])

def icmpv4InLocal : Code KernelLock := .loop (maybe reply)

def ipv4In : Code KernelLock := .seq heap (.loop (.seq heap (maybe icmpv4InLocal)))

def icmpv6InLocal : Code KernelLock :=
  .loop (maybe (either reply (.seq registerIpv6Fib registerIpv6Adjacent)))

def ipv6In : Code KernelLock := .seq heap (.loop (.seq heap (maybe icmpv6InLocal)))

/-- `EthernetIn::process`: the guard of the lookup ends with the frame. -/
def ethernetIn : Code KernelLock :=
  all [heap, .loop (.seq registerMacaddress (.locked .macAddrTable heap)), maybe arpIn, maybe ipv4In, maybe ipv6In, heap]

/-- `interrupt_handler` of an interface. -/
def interruptHandler (netif : ℕ) : Code KernelLock :=
  .seq (.locked (.virtio netif) .skip) (maybe (all [fillRxQueue netif, .locked (.queue netif 0) heap, heap,
    maybe ethernetIn, heap]))

/-! ## Tasks and timers (`asynchronous/*.rs`) -/

/-- `check_timerfutures_from_interrupt`: a waker is called under the lock it was in. -/
def checkTimerfutures : Code KernelLock := .loop (.seq (maybe (.any fun timer => .locked (.waker timer) heap)) heap)

/-- What the tasks of `start_rust` do when they are polled: they make timers and await
them. -/
def taskPoll : Code KernelLock := .loop (.seq heap (.any fun timer => maybe (.locked (.waker timer) heap)))

/-- `Executor::run`: the slot is locked during the poll. -/
def run : Code KernelLock := .loop (.seq (.any fun task => .locked (.future task) (maybe taskPoll)) heap)

/-- All that a processor does after start-up. -/
def kernel : Code KernelLock := .loop (either run (either checkTimerfutures (.any interruptHandler)))

/-- The order in which the locks are taken. -/
def rank : KernelLock → ℕ
  | .future _ => 0
  | .waker _ => 1
  | .macAddrTable => 2
  | .ipv4Adjacent | .ipv6Adjacent => 3
  | .queue _ _ => 4
  | .virtio _ => 5
  | .allocator => 6

end KernelLock

end Urchin
