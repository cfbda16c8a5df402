import Urchin.Exec.Outcome
import Urchin.Circ.Window
import Urchin.Route.Longest
import Urchin.Inet.Checksum
import Urchin.Gregorian.Calendar
import Urchin.Numeral.Digits
import Urchin.Move.Overlap
import Urchin.Seqlock.Versioned
import Urchin.Stack.Memory
import Urchin.Text.Find
import Urchin.Paging.Walk
import Urchin.Locking.Order
import Urchin.Spec.Buffer
import Urchin.Spec.Virtqueue
import Urchin.Spec.PushSteps
import Urchin.Spec.Address
import Urchin.Spec.VirtioNet
import Urchin.Spec.Fib
import Urchin.Spec.World
import Urchin.Spec.Nodes
import Urchin.Spec.Boot
import Urchin.Spec.Executor
import Urchin.Spec.Timer
import Urchin.Spec.Kvmclock
import Urchin.Spec.RingBuf
import Urchin.Spec.Interrupt
import Urchin.Spec.Cmdline
import Urchin.Spec.Bootparams
import Urchin.Spec.Mem
import Urchin.Spec.QueueLayout
import Urchin.Spec.Router
import Urchin.Spec.Mmio
import Urchin.Spec.Apic
import Urchin.Spec.Idt
import Urchin.Spec.Startup
import Urchin.Spec.Spinlock
import Urchin.Spec.MpTable
import Urchin.Spec.KernelLoop
import Urchin.Spec.Locks
import Urchin.Spec.Serial
import Urchin.Proof.Buffer
import Urchin.Proof.Queue
import Urchin.Proof.Fifo
import Urchin.Proof.Ownership
import Urchin.Proof.Publish
import Urchin.Proof.Receive
import Urchin.Proof.Notify
import Urchin.Proof.Refill
import Urchin.Proof.Transmit
import Urchin.Proof.Lookup
import Urchin.Proof.Adjacent
import Urchin.Proof.Xmit
import Urchin.Proof.Checksum
import Urchin.Proof.Ethernet
import Urchin.Proof.LocalRoute
import Urchin.Proof.Connected
import Urchin.Proof.Neighbours
import Urchin.Proof.ArpReply
import Urchin.Proof.Advertisement
import Urchin.Proof.Echo
import Urchin.Proof.Disclose
import Urchin.Proof.HandOver
import Urchin.Proof.Reply
import Urchin.Proof.EchoReply
import Urchin.Proof.Executor
import Urchin.Proof.Timer
import Urchin.Proof.TimerPass
import Urchin.Proof.Clock
import Urchin.Proof.ClockRead
import Urchin.Proof.Calendar
import Urchin.Proof.RingBuf
import Urchin.Proof.RingFifo
import Urchin.Proof.Interrupt
import Urchin.Proof.Cmdline
import Urchin.Proof.Allocation
import Urchin.Proof.Bootparams
import Urchin.Proof.QueueLayout
import Urchin.Proof.Mem
import Urchin.Proof.AddressOrder
import Urchin.Proof.TransmitFifo
import Urchin.Proof.Sent
import Urchin.Proof.Router
import Urchin.Proof.Mmio
import Urchin.Proof.Isr
import Urchin.Proof.Apic
import Urchin.Proof.Idt
import Urchin.Proof.Startup
import Urchin.Proof.Spinlock
import Urchin.Proof.MpTable
import Urchin.Proof.KernelLoop
import Urchin.Proof.Locks
import Urchin.Proof.Serial
import Urchin.Proof.Traffic
