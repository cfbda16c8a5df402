import Urchin.Proof.LocalRoute
import Urchin.Proof.Receive
import Urchin.Proof.Sent
import Urchin.Proof.TransmitFifo
import Urchin.Spec.Router

/-!
# The router at work is the router of the nodes

`RouterOK` puts the invariants of both queues of every interface together with the memory
the devices write to, the tables and the frames sent. The driver's two sides do not
disturb each other: an interrupt leaves the transmit queue alone and `xmit` the receive
queue, so the invariants of the parts carry over (`rx_congr`, `tx_congr`). What is new is
what ties them: a block the device wrote keeps its bytes until the frame is handed over, and
a block the nodes built until the device returns it, since blocks in use have addresses of
their own (`Apart`); and the frames that the nodes send are posted in their order.

`router_refines` is the result: rings, descriptors, counters and interrupts may be
forgotten. The tables are those the nodes compute from the frames the devices wrote, and
what each device fetches is what the nodes sent.
-/

namespace Urchin

open Exec

namespace Router

variable {c : ℕ}

/-- A block that may be in use: of the `i`-th buffer posted for reception on an interface, of the
`i`-th frame that waits to be posted, or of the `p`-th frame posted for transmission. -/
inductive BlockRef (c : ℕ) where
  | receive (n : Fin c) (i : ℕ)
  | waiting (i : ℕ)
  | transmit (n : Fin c) (p : ℕ)

/-- The frame in the block, from when the nodes have built it until the device returns it. -/
def outgoing (s : Router c) : BlockRef c → Option Buffer
  | .receive _ _ => none
  | .waiting i => s.pending[i]?.map Prod.snd
  | .transmit n p => if p ∈ (s.txDone n).map Taken.pos then none else (s.posted n)[p]?

/-- The address of the block, if it is in use: a receive buffer is until it is handed over. -/
def address (heap : Fin c → ℕ → Block) (s : Router c) : BlockRef c → Option UInt64
  | .receive n i => if (s.delivered n).length ≤ i ∧ i < s.allocs n then some (heap n i).ptr else none
  | .waiting i => (s.outgoing (.waiting i)).map Buffer.getAddress
  | .transmit n p => (s.outgoing (.transmit n p)).map Buffer.getAddress

/-- Blocks in use have addresses of their own. -/
def Apart (heap : Fin c → ℕ → Block) (s : Router c) : Prop :=
  ∀ x y a, s.address heap x = some a → s.address heap y = some a → x = y

/-- What is asked of a run: the allocator hands out no block that is in use (the buffers of an
interrupt are until `ethernet-in` is done, a frame is until the device returns it, although the
driver drops it with the next push of its slot), refills are safe, and the transmit queue has
room. -/
def Careful (heap : Fin c → ℕ → Block) (txHeap : ℕ → Block) (s : Router c) : RouterOp c → Prop
  | .interrupt n true => RefillSafe (s.nets n).rxq ∧ ∀ s', s.interrupt heap txHeap n true = .ok s' →
      Apart heap { s' with delivered := s.delivered }
  | .flush => ∀ netif buffer rest, s.pending = (netif, buffer) :: rest → ∀ n : Fin c, n.val = netif.id →
      (s.txView n).Room (.xmit buffer)
  | .interrupt _ false | .rxTake _ | .rxComplete _ _ | .txTake _ | .txComplete _ _ _ => True

/-- The frame is the bytes behind the virtio header, in a buffer as the driver hands it
over. -/
def AsWritten (f : DataFromNetif) (bytes : List UInt8) : Prop :=
  VirtioNet.Received f.buffer ∧ ∀ k x, bytes[12 + k]? = some x → f.buffer.peek k = x

section

variable (s : Router c) (n : Fin c) (r : RxSys) (t : TxSys)

@[simp] theorem rxView_setRx : (s.setRx n r).rxView n = r := by
  simp [rxView, setRx]

@[simp] theorem txView_setTx : (s.setTx n t).txView n = t := by
  simp [txView, setTx]

theorem rxView_setRx_ne {m : Fin c} (h : m ≠ n) : (s.setRx n r).rxView m = s.rxView m := by
  simp [rxView, setRx, Function.update_of_ne h]

theorem txView_setTx_ne {m : Fin c} (h : m ≠ n) : (s.setTx n t).txView m = s.txView m := by
  simp [txView, setTx, Function.update_of_ne h]

theorem txView_setRx_ne {m : Fin c} (h : m ≠ n) : (s.setRx n r).txView m = s.txView m := by
  simp [txView, setRx, Function.update_of_ne h]

theorem rxView_setTx_ne {m : Fin c} (h : m ≠ n) : (s.setTx n t).rxView m = s.rxView m := by
  simp [rxView, setTx, Function.update_of_ne h]

theorem txView_setRx_self : (s.setRx n r).txView n = { s.txView n with net := r.net } := by
  simp [txView, setRx]

theorem rxView_setTx_self : (s.setTx n t).rxView n = { s.rxView n with net := t.net } := by
  simp [rxView, setTx]

end

/-- The receive side reads the receive queue and the flags only. -/
theorem rx_congr {heap : ℕ → Block} {s : RxSys} {net : VirtioNet} (h : RxOK heap s)
    (hq : net.rxq = s.net.rxq) (hsize : net.rxBufferSize = s.net.rxBufferSize) :
    RxOK heap { s with net := net } := by
  have hview : RxSys.view heap { s with net := net } = s.view heap := by
    simp only [RxSys.view, hq, hsize]
  refine ⟨?_, ?_, ?_⟩
  · rw [hview]
    exact h.fifo
  · simp only [hq]
    exact h.spare
  · rw [hview]
    exact h.out

/-- The transmit side reads the transmit queue only. -/
theorem tx_congr {s : TxSys} {net : VirtioNet} (h : (TxOK s ∧ OnWire s) ∧ Within s)
    (hq : net.txq = s.net.txq) :
    (TxOK { s with net := net } ∧ OnWire { s with net := net }) ∧ Within { s with net := net } := by
  obtain ⟨⟨⟨h1, h2, h3, h4, h5, h6⟩, ⟨g1, g2, g3, g4, g5⟩⟩, ⟨k1, k2⟩⟩ := h
  have hN : TxSys.N { s with net := net } = s.N := by
    simp only [TxSys.N, hq]
  refine ⟨⟨⟨?_, ?_, ?_, h4, h5, ?_⟩, ⟨?_, ?_, ?_, g4, ?_⟩⟩, ⟨?_, k2⟩⟩
  all_goals simp only [hN, hq]
  all_goals assumption

/-! ## Blocks in use -/

section

variable {heap : Fin c → ℕ → Block} {s s' : Router c}

theorem address_of_outgoing {x : BlockRef c} {b : Buffer} (h : s.outgoing x = some b) :
    s.address heap x = some b.getAddress := by
  cases x with
  | receive n i => cases h
  | waiting i => exact Option.map_eq_some_iff.2 ⟨b, h, rfl⟩
  | transmit n p => exact Option.map_eq_some_iff.2 ⟨b, h, rfl⟩

theorem address_receive_iff {n : Fin c} {i : ℕ} {a : UInt64} : s.address heap (.receive n i) = some a ↔
    ((s.delivered n).length ≤ i ∧ i < s.allocs n) ∧ (heap n i).ptr = a := by
  simp only [address, Option.ite_none_right_eq_some, Option.some.injEq]

theorem outgoing_waiting_iff {i : ℕ} {b : Buffer} :
    s.outgoing (.waiting i) = some b ↔ s.pending[i]?.map Prod.snd = some b := Iff.rfl

/-- What the device of interface `n` has not returned. -/
theorem outgoing_transmit_iff {n : Fin c} {p : ℕ} {b : Buffer} : s.outgoing (.transmit n p) = some b ↔
    p ∉ (s.txDone n).map Taken.pos ∧ (s.posted n)[p]? = some b := by
  simp only [outgoing, Option.ite_none_left_eq_some]

/-- A receive buffer in use is in no block of a frame sent. -/
theorem Apart.receive_ne (h : Apart heap s) {n : Fin c} {i : ℕ} {x : BlockRef c} {b : Buffer}
    (hd : (s.delivered n).length ≤ i) (hi : i < s.allocs n) (hb : s.outgoing x = some b) :
    (heap n i).ptr ≠ b.getAddress := by
  intro he
  have hx := h _ _ _ (address_receive_iff.2 ⟨⟨hd, hi⟩, he⟩) (address_of_outgoing hb)
  rw [← hx] at hb
  cases hb

/-- Frames that are not in use any more: the device has returned them. -/
theorem outgoing_of_done (hp : s'.pending = s.pending) (hposted : s'.posted = s.posted)
    (hdone : ∀ n p, p ∈ (s.txDone n).map Taken.pos → p ∈ (s'.txDone n).map Taken.pos) {x : BlockRef c} {b : Buffer}
    (h : s'.outgoing x = some b) : s.outgoing x = some b := by
  cases x with
  | receive n i => cases h
  | waiting i =>
    rw [outgoing_waiting_iff] at h ⊢
    rwa [← hp]
  | transmit n p =>
    rw [outgoing_transmit_iff] at h ⊢
    rw [← hposted]
    exact ⟨fun hin => h.1 (hdone n p hin), h.2⟩

/-- Blocks in use that were in use before, frames perhaps under another name, are apart. -/
theorem Apart.rename (h : Apart heap s) {f : BlockRef c → BlockRef c} (hf : Function.Injective f)
    (hreceive : ∀ n i, f (.receive n i) = .receive n i)
    (hdel : ∀ n, (s.delivered n).length ≤ (s'.delivered n).length) (hallocs : s'.allocs = s.allocs)
    (hout : ∀ x b, s'.outgoing x = some b → s.outgoing (f x) = some b) : Apart heap s' := by
  have hsub : ∀ x a, s'.address heap x = some a → s.address heap (f x) = some a := by
    intro x a hx
    cases x with
    | receive n i =>
      rw [address_receive_iff, hallocs] at hx
      rw [hreceive]
      exact address_receive_iff.2 ⟨⟨(hdel n).trans hx.1.1, hx.1.2⟩, hx.2⟩
    | waiting i =>
      obtain ⟨b, hb, rfl⟩ := Option.map_eq_some_iff.1 hx
      exact address_of_outgoing (hout _ b hb)
    | transmit n p =>
      obtain ⟨b, hb, rfl⟩ := Option.map_eq_some_iff.1 hx
      exact address_of_outgoing (hout _ b hb)
  exact fun x y a hx hy => hf (h _ _ a (hsub x a hx) (hsub y a hy))

/-- Fewer blocks in use are apart. -/
theorem Apart.of_less (h : Apart heap s) (hdel : ∀ n, (s.delivered n).length ≤ (s'.delivered n).length)
    (hallocs : s'.allocs = s.allocs) (hout : ∀ x b, s'.outgoing x = some b → s.outgoing x = some b) :
    Apart heap s' := h.rename Function.injective_id (fun _ _ => rfl) hdel hallocs hout

/-- The name of a block before the first frame that waits is taken off: it is posted in the place
`last`, or dropped. -/
def BlockRef.before (last : Option (Fin c × ℕ)) : BlockRef c → BlockRef c
  | .receive n i => .receive n i
  | .waiting i => .waiting (i + 1)
  | .transmit n p => if last = some (n, p) then .waiting 0 else .transmit n p

theorem BlockRef.before_injective (last : Option (Fin c × ℕ)) : Function.Injective (BlockRef.before last) := by
  intro x y h
  cases x <;> cases y <;> simp only [before] at h <;> grind

/-- The first frame that waits is posted. -/
theorem outgoing_posted {netif : Netif} {buffer : Buffer} {rest : List (Netif × Buffer)}
    (hp : s.pending = (netif, buffer) :: rest) {n : Fin c} {t : TxSys} (hsent : t.sent = s.posted n ++ [buffer])
    (hdone : t.done = s.txDone n) {x : BlockRef c} {b : Buffer}
    (h : Router.outgoing { s.setTx n t with pending := rest } x = some b) :
    s.outgoing (x.before (some (n, (s.posted n).length))) = some b := by
  cases x with
  | receive m i => cases h
  | waiting i =>
    refine outgoing_waiting_iff.2 ?_
    rw [hp]
    exact h
  | transmit m p =>
    obtain ⟨hnot, hget⟩ := outgoing_transmit_iff.1 h
    simp only [setTx, hdone, hsent, Function.update_eq_self] at hnot hget
    by_cases hm : m = n
    · subst hm
      rw [Function.update_self] at hget
      rcases eq_or_ne p (s.posted m).length with hlast | hlast
      · -- the frame that has just been posted
        rw [hlast, List.getElem?_concat_length] at hget
        rw [BlockRef.before, if_pos (by rw [hlast]), outgoing_waiting_iff, hp]
        exact hget
      · have hlt := (List.getElem?_eq_some_iff.1 hget).1
        rw [List.length_append, List.length_singleton] at hlt
        rw [List.getElem?_append_left (by omega)] at hget
        rw [BlockRef.before, if_neg (by simpa using hlast.symm)]
        exact outgoing_transmit_iff.2 ⟨hnot, hget⟩
    · rw [Function.update_of_ne hm] at hget
      rw [BlockRef.before, if_neg (by simp [Ne.symm hm])]
      exact outgoing_transmit_iff.2 ⟨hnot, hget⟩

/-- It is dropped. -/
theorem outgoing_dropped {x₀ : Netif × Buffer} {rest : List (Netif × Buffer)} (hp : s.pending = x₀ :: rest)
    {x : BlockRef c} {b : Buffer} (h : Router.outgoing { s with pending := rest } x = some b) :
    s.outgoing (x.before none) = some b := by
  cases x with
  | receive m i => cases h
  | waiting i =>
    refine outgoing_waiting_iff.2 ?_
    rw [hp]
    exact h
  | transmit m p => exact h

/-- The other blocks keep what they hold. -/
theorem writeBlocks_of_ne {ram : UInt64 → ℕ → UInt8} {sent : List (Netif × Buffer)} {a : UInt64}
    (h : ∀ x ∈ sent, x.2.getAddress ≠ a) : writeBlocks ram sent a = ram a := by
  induction sent generalizing ram with
  | nil => rfl
  | cons x sent ih =>
    refine (ih fun y hy => h y (List.mem_cons_of_mem x hy)).trans ?_
    exact Function.update_of_ne (h x List.mem_cons_self).symm _ _

/-- A frame in a block of its own. -/
theorem writeBlocks_get {ram : UInt64 → ℕ → UInt8} {sent : List (Netif × Buffer)} {i : ℕ} {x : Netif × Buffer}
    (hi : sent[i]? = some x) (h : ∀ j y, sent[j]? = some y → y.2.getAddress = x.2.getAddress → j = i) :
    writeBlocks ram sent x.2.getAddress = x.2.mem := by
  induction sent generalizing ram i with
  | nil => cases hi
  | cons y sent ih =>
    cases i with
    | zero =>
      obtain rfl : y = x := Option.some.inj hi
      have hrest : ∀ z ∈ sent, z.2.getAddress ≠ y.2.getAddress := by
        intro z hz he
        obtain ⟨j, hj⟩ := List.mem_iff_getElem?.1 hz
        exact absurd (h (j + 1) z hj he) (Nat.succ_ne_zero j)
      refine (writeBlocks_of_ne hrest).trans ?_
      exact Function.update_self ..
    | succ i => exact ih hi fun j z hz he => Nat.succ.inj (h (j + 1) z hz he)

end

end Router

namespace VirtioNet

theorem fillRxQueue_frame {heap : ℕ → Block} {net net' : VirtioNet} {a a' : ℕ}
    (h : net.fillRxQueue heap a = .ok (net', a')) : ∃ q, net' = { net with rxq := q } := by
  unfold fillRxQueue at h
  simp only at h
  split at h
  · obtain ⟨r, -, hr⟩ := bind_eq_ok.1 h
    obtain ⟨rfl, -⟩ := Prod.mk.inj (Except.ok.inj hr)
    exact ⟨_, rfl⟩
  · obtain ⟨rfl, -⟩ := Prod.mk.inj (Except.ok.inj h)
    exact ⟨_, rfl⟩

/-- An interrupt changes the receive queue only. -/
theorem interruptHandler_frame {heap : ℕ → Block} {net : VirtioNet} {a : ℕ}
    {r : List Buffer × VirtioNet × ℕ} (h : net.interruptHandler heap true a = .ok r) :
    ∃ q, r.2.1 = { net with rxq := q } := by
  unfold interruptHandler at h
  rw [if_pos rfl] at h
  obtain ⟨⟨net₁, a₁⟩, h1, h⟩ := bind_eq_ok.1 h
  obtain ⟨⟨out, q⟩, -, h⟩ := bind_eq_ok.1 h
  obtain ⟨q₁, rfl⟩ := fillRxQueue_frame h1
  rw [← Except.ok.inj h]
  exact ⟨q, rfl⟩

end VirtioNet

/-! ## The invariant -/

open Router

/-- The invariant of a router whose interfaces are `ifs`, started in the state `w₀`. -/
structure RouterOK {c : ℕ} (heap : Fin c → ℕ → Block) (txHeap : ℕ → Block) (w₀ : World)
    (ifs : Fin c → Netif) (s : Router c) : Prop where
  rx : ∀ n, RxOK (heap n) (s.rxView n)
  tx : ∀ n, (TxOK (s.txView n) ∧ OnWire (s.txView n)) ∧ Within (s.txView n)
  same : ∀ n, s.netif n = ifs n
  apart : Apart heap s
  count : ∀ n, (s.arrived n).length = (s.rxDone n).length
  written : ∀ n j bytes, (s.arrived n)[j]? = some bytes → (s.delivered n).length ≤ j →
    ∀ k x, bytes[k]? = some x → s.ram (heap n j).ptr k = x
  built : ∀ x b, s.outgoing x = some b → s.ram b.getAddress = b.mem
  handed : ∀ n, List.Forall₂ AsWritten (s.batches.flatten.filter (·.netif = ifs n))
    ((s.arrived n).take (s.delivered n).length)
  tables : (forEach (ethernetIn txHeap) w₀ s.batches).state = s.world
  running : s.halted = false → forEach (ethernetIn txHeap) w₀ s.batches = .ok s.world
  log : ∃ flushed, s.world.sent = w₀.sent ++ flushed ++ s.pending ∧
    ∀ n, s.posted n = (flushed.filter (·.1.id = n.val)).map Prod.snd

/-- A device returns what has been posted. -/
theorem RxOK.arrived_lt {heap : ℕ → Block} {s : RxSys} (h : RxOK heap s) {j : ℕ} (hj : j < s.done.length) :
    j < s.allocs := by
  have hle := h.fifo.done_le_pushed
  rw [s.view_pushed_length heap, RxSys.view_done] at hle
  omega

/-- The oldest entry of an in-order device is the next posting. -/
theorem RxOK.oldest {heap : ℕ → Block} {s : RxSys} (h : RxOK heap s) {t : Taken} {rest : List Taken}
    (hin : s.dev.inflight = t :: rest) : t.desc.addr = (heap s.done.length).ptr ∧ s.done.length < s.allocs := by
  have hlt : s.done.length < s.allocs := by
    have h1 := h.fifo.done_le_pushed
    rw [s.view_pushed_length heap, RxSys.view_done, show (s.view heap).dev.inflight = t :: rest from hin] at h1
    simp only [List.length_cons] at h1
    omega
  have hmem : t ∈ (s.view heap).done ++ (s.view heap).dev.inflight := by
    refine List.mem_append_right _ ?_
    show t ∈ s.dev.inflight
    rw [hin]
    exact List.mem_cons_self
  have hpos : t.pos = s.done.length := by
    have hord : (s.done ++ s.dev.inflight).map Taken.pos = List.range s.dev.taken := h.fifo.order
    have hget := congrArg (·[s.done.length]?) hord
    simp only [hin, List.map_append, List.map_cons, List.getElem?_append_right, List.length_map, le_refl,
      Nat.sub_self, List.getElem?_cons_zero] at hget
    obtain ⟨hlt', he⟩ := List.getElem?_eq_some_iff.1 hget.symm
    rw [List.getElem_range] at he
    exact he.symm
  refine ⟨?_, hlt⟩
  have hpush : (s.view heap).pushed[t.pos]? = some (rxBuffer heap s.net.rxBufferSize s.done.length, false) := by
    rw [hpos]
    simp [RxSys.view, rxPushed, hlt]
  exact ((h.fifo.entry t hmem).2 _ hpush).1

namespace RouterOK

variable {c : ℕ} {heap : Fin c → ℕ → Block} {txHeap : ℕ → Block} {w₀ : World} {ifs : Fin c → Netif}
  {s s' : Router c}

/-- An interface whose receive side has changed. -/
theorem parts_setRx (h : RouterOK heap txHeap w₀ ifs s) {n : Fin c} {r : RxSys} (hr : RxOK (heap n) r)
    {q : Virtqueue} (hq : r.net = { s.nets n with rxq := q }) :
    (∀ m, RxOK (heap m) ((s.setRx n r).rxView m)) ∧
    (∀ m, (TxOK ((s.setRx n r).txView m) ∧ OnWire ((s.setRx n r).txView m)) ∧ Within ((s.setRx n r).txView m)) ∧
    ∀ m, (s.setRx n r).netif m = ifs m := by
  refine ⟨fun m => ?_, fun m => ?_, fun m => ?_⟩
  · by_cases hm : m = n
    · subst hm
      rw [rxView_setRx]
      exact hr
    · rw [rxView_setRx_ne s n r hm]
      exact h.rx m
  · by_cases hm : m = n
    · subst hm
      rw [txView_setRx_self]
      exact tx_congr (h.tx m) (by rw [hq]; rfl)
    · rw [txView_setRx_ne s n r hm]
      exact h.tx m
  · rw [← h.same m]
    by_cases hm : m = n
    · subst hm
      simp [netif, setRx, hq]
    · simp [netif, setRx, Function.update_of_ne hm]

/-- An interface whose transmit side has changed. -/
theorem parts_setTx (h : RouterOK heap txHeap w₀ ifs s) {n : Fin c} {t : TxSys}
    (ht : (TxOK t ∧ OnWire t) ∧ Within t) {q : Virtqueue} (hq : t.net = { s.nets n with txq := q }) :
    (∀ m, RxOK (heap m) ((s.setTx n t).rxView m)) ∧
    (∀ m, (TxOK ((s.setTx n t).txView m) ∧ OnWire ((s.setTx n t).txView m)) ∧ Within ((s.setTx n t).txView m)) ∧
    ∀ m, (s.setTx n t).netif m = ifs m := by
  refine ⟨fun m => ?_, fun m => ?_, fun m => ?_⟩
  · by_cases hm : m = n
    · subst hm
      rw [rxView_setTx_self]
      exact rx_congr (h.rx m) (by rw [hq]; rfl) (by rw [hq]; rfl)
    · rw [rxView_setTx_ne s n t hm]
      exact h.rx m
  · by_cases hm : m = n
    · subst hm
      rw [txView_setTx]
      exact ht
    · rw [txView_setTx_ne s n t hm]
      exact h.tx m
  · rw [← h.same m]
    by_cases hm : m = n
    · subst hm
      simp [netif, setTx, hq]
    · simp [netif, setTx, Function.update_of_ne hm]

/-- The device of an interface takes a receive buffer. -/
theorem rxTake (h : RouterOK heap txHeap w₀ ifs s) (n : Fin c) :
    RouterOK heap txHeap w₀ ifs (s.setRx n { s.rxView n with dev := (s.rxDev n).take (s.nets n).rxq }) := by
  obtain ⟨hrx, htx, hsame⟩ := h.parts_setRx (q := (s.nets n).rxq) (h.rx n).take_ok rfl
  have hallocs : Function.update s.allocs n (s.allocs n) = s.allocs := Function.update_eq_self n _
  have hdone : Function.update s.rxDone n (s.rxDone n) = s.rxDone := Function.update_eq_self n _
  have hdel : Function.update s.delivered n (s.delivered n) = s.delivered := Function.update_eq_self n _
  refine ⟨hrx, htx, hsame, ?_, ?_, ?_, fun x b hb => h.built x b hb, ?_, h.tables, h.running, h.log⟩
  · exact h.apart.of_less (fun m => (congrArg List.length (congrFun hdel m)).ge) hallocs fun _ _ hb => hb
  · simpa only [setRx, rxView, hdone] using h.count
  · simpa only [setRx, rxView, hdel] using h.written
  · simpa only [setRx, rxView, hdel] using h.handed

/-- A posted buffer is in use until it is handed over. -/
theorem inUse (h : RouterOK heap txHeap w₀ ifs s) {n : Fin c} {j : ℕ} (hj : j < (s.arrived n).length)
    (hd : (s.delivered n).length ≤ j) : s.address heap (.receive n j) = some (heap n j).ptr := by
  rw [h.count n] at hj
  exact address_receive_iff.2 ⟨⟨hd, (h.rx n).arrived_lt hj⟩, rfl⟩

/-- **A device writes a frame**: the other blocks in use keep what they hold. -/
theorem rxComplete (h : RouterOK heap txHeap w₀ ifs s) (n : Fin c) (bytes : List UInt8) :
    RouterOK heap txHeap w₀ ifs (s.rxComplete n bytes) := by
  unfold Router.rxComplete
  split
  rotate_left
  · exact h
  rename_i t rest hin
  obtain ⟨haddr, hlt⟩ := (h.rx n).oldest hin
  have hdonelen : (s.rxView n).done.length = (s.arrived n).length := (h.count n).symm
  rw [hdonelen] at haddr hlt
  have hlag : (s.delivered n).length ≤ (s.arrived n).length := by
    rw [h.count n]
    exact (h.rx n).lag
  have huse : s.address heap (.receive n (s.arrived n).length) = some t.desc.addr :=
    address_receive_iff.2 ⟨⟨hlag, hlt⟩, haddr.symm⟩
  have hcomplete : (s.rxView n).complete (UInt32.ofNat bytes.length) =
      ⟨{ s.nets n with rxq := (s.nets n).rxq.complete t.head (UInt32.ofNat bytes.length) },
        ⟨(s.rxDev n).taken, rest⟩, s.allocs n, s.rxDone n ++ [t], s.delivered n⟩ := by
    unfold RxSys.complete rxView
    simp only [hin]
  have hok := (h.rx n).complete_ok (UInt32.ofNat bytes.length)
  rw [hcomplete] at hok ⊢
  obtain ⟨hrx, htx, hsame⟩ := h.parts_setRx hok rfl
  have hallocs : Function.update s.allocs n (s.allocs n) = s.allocs := Function.update_eq_self n _
  have hdel : Function.update s.delivered n (s.delivered n) = s.delivered := Function.update_eq_self n _
  refine ⟨hrx, htx, hsame, ?_, ?_, ?_, ?_, ?_, h.tables, h.running, h.log⟩
  · exact h.apart.of_less (fun m => (congrArg List.length (congrFun hdel m)).ge) hallocs
      fun _ _ hb => hb
  · intro m
    simp only [setRx]
    by_cases hm : m = n
    · subst hm
      rw [Function.update_self, Function.update_self, List.length_append, List.length_append, h.count m]
      rfl
    · rw [Function.update_of_ne hm, Function.update_of_ne hm]
      exact h.count m
  · intro m j bytes' hget hj k x hx
    simp only [setRx, hdel] at hget hj ⊢
    -- either the frame just written, or one in another block
    by_cases hnew : (m, j) = (n, (s.arrived n).length)
    · obtain ⟨rfl, rfl⟩ := Prod.mk.inj hnew
      rw [Function.update_self, List.getElem?_concat_length] at hget
      obtain rfl := Option.some.inj hget
      rw [haddr, Function.update_self]
      show bytes.getD k _ = x
      rw [List.getD_eq_getElem?_getD, hx]
      rfl
    · have hold : (s.arrived m)[j]? = some bytes' := by
        by_cases hm : m = n
        · subst hm
          rw [Function.update_self] at hget
          have hlt' : j < (s.arrived m).length + 1 := by
            have := (List.getElem?_eq_some_iff.1 hget).1
            rwa [List.length_append, List.length_singleton] at this
          rcases Nat.lt_succ_iff_lt_or_eq.1 hlt' with hold | heq
          · rwa [List.getElem?_append_left hold] at hget
          · exact absurd (by rw [heq]) hnew
        · rwa [Function.update_of_ne hm] at hget
      have huse' := h.inUse (List.getElem?_eq_some_iff.1 hold).1 hj
      have hne : (heap m j).ptr ≠ t.desc.addr := by
        rw [haddr]
        intro he
        obtain ⟨hm, hj'⟩ := BlockRef.receive.inj (h.apart _ _ _ huse' (by rw [he, ← haddr]; exact huse))
        exact hnew (by rw [hm, hj'])
      rw [Function.update_of_ne hne]
      exact h.written m j bytes' hold hj k x hx
  · intro x b hb
    have hb' : s.outgoing x = some b := hb
    have hne : t.desc.addr ≠ b.getAddress := by
      rw [haddr]
      exact h.apart.receive_ne hlag hlt hb'
    show Function.update s.ram t.desc.addr _ b.getAddress = b.mem
    rw [Function.update_of_ne hne.symm]
    exact h.built x b hb'
  · intro m
    simp only [setRx, hdel]
    by_cases hm : m = n
    · subst hm
      rw [Function.update_self, List.take_append_of_le_length hlag]
      exact h.handed m
    · rw [Function.update_of_ne hm]
      exact h.handed m

/-- The frames of an interrupt carry what the device wrote, in its order. -/
theorem frames_carry (h : RouterOK heap txHeap w₀ ifs s) {n : Fin c} {r : RxSys} {bufs : List Buffer}
    (hr : RxOK (heap n) r) (hdel : r.delivered = s.delivered n ++ bufs)
    (hlen : r.delivered.length = (s.arrived n).length) {s₁ : Router c} (hram : s₁.ram = s.ram) :
    List.Forall₂ AsWritten (s₁.frames n bufs) ((s.arrived n).drop (s.delivered n).length) := by
  have hbufs : bufs.length = (s.arrived n).length - (s.delivered n).length := by
    rw [hdel, List.length_append] at hlen
    omega
  unfold Router.frames
  rw [List.forall₂_map_left_iff, List.forall₂_iff_get]
  refine ⟨by rw [List.length_drop, hbufs], fun i hi hi' => ?_⟩
  simp only [List.get_eq_getElem]
  -- the buffer is the posting that the device filled
  have hget : r.delivered[(s.delivered n).length + i]? = some bufs[i] := by
    rw [hdel, List.getElem?_append_right (Nat.le_add_right _ _), Nat.add_sub_cancel_left,
      List.getElem?_eq_getElem hi]
  obtain ⟨-, -, -, -, hb⟩ := hr.delivered_eq hget
  have hrec : VirtioNet.Received bufs[i] := hr.received (List.mem_of_getElem? hget)
  refine ⟨hrec, fun k x hx => ?_⟩
  have hj : (s.delivered n).length + i < (s.arrived n).length := by
    rw [List.length_drop] at hi'
    omega
  have hbytes : (s.arrived n)[(s.delivered n).length + i]? =
      some ((s.arrived n).drop (s.delivered n).length)[i] := by
    rw [List.getElem_drop, List.getElem?_eq_getElem hj]
  have hmem := h.written n _ _ hbytes (Nat.le_add_right _ _) (12 + k) x hx
  have haddr : bufs[i].getAddress = (heap n ((s.delivered n).length + i)).ptr := by
    rw [hb]
    rfl
  show s₁.ram bufs[i].getAddress (bufs[i].position.toNat + k) = x
  rw [hram, haddr, hrec.1]
  exact hmem

/-- A batch of the frames that the device wrote since the last one. -/
theorem handed_batch (h : RouterOK heap txHeap w₀ ifs s) {n : Fin c} {batch : List DataFromNetif}
    (hall : ∀ f ∈ batch, f.netif = ifs n)
    (hcarry : List.Forall₂ AsWritten batch ((s.arrived n).drop (s.delivered n).length)) {bufs : List Buffer}
    (hlen : bufs.length = (s.arrived n).length) (m : Fin c) :
    List.Forall₂ AsWritten ((s.batches ++ [batch]).flatten.filter (·.netif = ifs m))
      ((s.arrived m).take (Function.update s.delivered n bufs m).length) := by
  rw [List.flatten_append, List.flatten_singleton, List.filter_append]
  by_cases hm : m = n
  · subst hm
    rw [List.filter_eq_self.2 fun f hf => decide_eq_true (hall f hf), Function.update_self, hlen, List.take_length,
      ← List.take_append_drop (s.delivered m).length (s.arrived m)]
    exact List.rel_append (h.handed m) hcarry
  · -- interfaces have numbers of their own
    have hnone : batch.filter (fun f => decide (f.netif = ifs m)) = [] := by
      rw [List.filter_eq_nil_iff]
      intro f hf hfm
      have hids := congrArg Netif.id ((of_decide_eq_true hfm).symm.trans (hall f hf))
      rw [← h.same m, ← h.same n] at hids
      exact hm (Fin.ext hids)
    rw [hnone, List.append_nil, Function.update_of_ne hm]
    exact h.handed m

/-- **The nodes build their frames** in blocks that are not in use: what the devices wrote for
frames to come stays, and so do the frames that are still to be fetched. -/
theorem process_blocks (h : RouterOK heap txHeap w₀ ifs s) {n : Fin c} {r : RxSys} {batch : List DataFromNetif}
    (hapart : Apart heap { (s.setRx n r).process txHeap batch with delivered := s.delivered }) :
    (∀ x b, ((s.setRx n r).process txHeap batch).outgoing x = some b →
      ((s.setRx n r).process txHeap batch).ram b.getAddress = b.mem) ∧
    ∀ m j, (s.delivered m).length ≤ j → j < (s.setRx n r).allocs m →
      ((s.setRx n r).process txHeap batch).ram (heap m j).ptr = s.ram (heap m j).ptr := by
  set s' := (s.setRx n r).process txHeap batch with hs'
  have hram : s'.ram = writeBlocks s.ram s'.pending := rfl
  have hwaiting : ∀ (i : ℕ) x, s'.pending[i]? = some x →
      Router.outgoing { s' with delivered := s.delivered } (.waiting i) = some x.2 := fun i x hx =>
    outgoing_waiting_iff.2 (congrArg (Option.map Prod.snd) hx)
  rw [hram]
  refine ⟨fun x b hb => ?_, fun m j hd hj => writeBlocks_of_ne fun y hy => ?_⟩
  · cases x with
    | receive m i => cases hb
    | waiting i =>
      obtain ⟨y, hy, rfl⟩ := Option.map_eq_some_iff.1 (outgoing_waiting_iff.1 hb)
      refine writeBlocks_get hy fun j z hz he => ?_
      exact BlockRef.waiting.inj (hapart _ _ _ (address_of_outgoing (hwaiting j z hz))
        ((address_of_outgoing (hwaiting i y hy)).trans (congrArg some he.symm)))
    | transmit m p =>
      rw [← h.built (.transmit m p) b hb]
      have hold : Router.outgoing { s' with delivered := s.delivered } (.transmit m p) = some b := hb
      refine writeBlocks_of_ne fun y hy he => ?_
      obtain ⟨j, hj⟩ := List.mem_iff_getElem?.1 hy
      have hsame := hapart _ _ _ (address_of_outgoing (hwaiting j y hj))
        ((address_of_outgoing hold).trans (congrArg some he.symm))
      cases hsame
  · obtain ⟨i, hi⟩ := List.mem_iff_getElem?.1 hy
    exact (hapart.receive_ne hd hj (hwaiting i y hi)).symm

/-- **An interrupt**: the tables become what the nodes make of the frames the device
wrote. -/
theorem interrupt (h : RouterOK heap txHeap w₀ ifs s) (n : Fin c) {irqed : Bool}
    (ha : s.Careful heap txHeap (.interrupt n irqed)) (hhalt : s.halted = false) (hpend : s.pending = [])
    (he : s.interrupt heap txHeap n irqed = .ok s') : RouterOK heap txHeap w₀ ifs s' := by
  unfold Router.interrupt at he
  obtain ⟨r, hr, rfl⟩ := map_eq_ok.1 he
  cases irqed with
  | false =>
    -- not for this device
    have hr' : r = ([], s.nets n, s.allocs n) := (Except.ok.inj hr).symm
    have hsame : s.setRx n ⟨r.2.1, s.rxDev n, r.2.2, s.rxDone n, s.delivered n ++ r.1⟩ = s := by
      rw [hr']
      simp only [setRx, List.append_nil, Function.update_eq_self]
    simp only [hsame, Bool.false_eq_true, if_false]
    exact h
  | true =>
    obtain ⟨hsafe, hfresh⟩ := ha
    have hapart := hfresh _ (map_eq_ok.2 ⟨r, hr, rfl⟩)
    obtain ⟨q, hq⟩ := VirtioNet.interruptHandler_frame hr
    obtain ⟨r', hr', hok, -, hdone', hlen, -⟩ := (h.rx n).interrupt_ok hsafe
    have hstep : RxSys.step (heap n) (s.rxView n) (.interrupt true) =
        .ok ⟨r.2.1, s.rxDev n, r.2.2, s.rxDone n, s.delivered n ++ r.1⟩ := map_eq_ok.2 ⟨r, hr, rfl⟩
    obtain rfl := Except.ok.inj (hstep.symm.trans hr')
    have hlen' : (s.delivered n ++ r.1).length = (s.arrived n).length := by
      rw [h.count n]
      exact hlen
    have hlag : (s.delivered n).length ≤ (s.arrived n).length := by
      rw [List.length_append] at hlen'
      omega
    obtain ⟨hrx, htx, hsame⟩ := h.parts_setRx hok hq
    simp only [if_true] at hapart ⊢
    obtain ⟨hbuilt, hkept⟩ := h.process_blocks hapart
    set s₁ := s.setRx n ⟨r.2.1, s.rxDev n, r.2.2, s.rxDone n, s.delivered n ++ r.1⟩ with hs₁
    have hdone : Function.update s.rxDone n (s.rxDone n) = s.rxDone := Function.update_eq_self n _
    have hcarry : List.Forall₂ AsWritten (s₁.frames n r.1) ((s.arrived n).drop (s.delivered n).length) :=
      h.frames_carry hok rfl hlen' rfl
    have hall : ∀ f ∈ s₁.frames n r.1, f.netif = ifs n := by
      intro f hf
      obtain ⟨b, -, rfl⟩ := List.mem_map.1 hf
      exact hsame n
    have hdel : ∀ m, m ≠ n → s₁.delivered m = s.delivered m := fun m hm => Function.update_of_ne hm _ _
    have hdeln : s₁.delivered n = s.delivered n ++ r.1 := Function.update_self _ _ _
    have hbatch : forEach (ethernetIn txHeap) w₀ (s.batches ++ [s₁.frames n r.1]) =
        ethernetIn txHeap s.world (s₁.frames n r.1) := by
      rw [forEach_append, h.running hhalt, Outcome.bind_ok, forEach_singleton]
    obtain ⟨flushed, hlog, hposted⟩ := h.log
    rw [hpend, List.append_nil] at hlog
    have hmore : ∀ m, (s.delivered m).length ≤ (s₁.delivered m).length := by
      intro m
      by_cases hm : m = n
      · rw [hm, hdeln, List.length_append]
        omega
      · rw [hdel m hm]
    refine ⟨hrx, htx, hsame, ?_, ?_, ?_, hbuilt, ?_, ?_, ?_, ?_⟩
    · -- the buffers of the interrupt have been handed over
      exact hapart.of_less hmore rfl fun _ _ hb => hb
    · intro m
      show (s.arrived m).length = (Function.update s.rxDone n (s.rxDone n) m).length
      rw [hdone]
      exact h.count m
    · intro m j bytes hget hj k x hx
      have hj' := (hmore m).trans hj
      rw [hkept m j hj' ((hrx m).arrived_lt (by
        show j < (Function.update s.rxDone n (s.rxDone n) m).length
        rw [hdone, ← h.count m]
        exact (List.getElem?_eq_some_iff.1 hget).1))]
      exact h.written m j bytes hget hj' k x hx
    · exact h.handed_batch hall hcarry hlen'
    · show (forEach (ethernetIn txHeap) w₀ (s.batches ++ [s₁.frames n r.1])).state = _
      rw [hbatch]
      rfl
    · intro hrun
      have hok : (!(ethernetIn txHeap s.world (s₁.frames n r.1)).isOk) = false := hrun
      rw [Bool.not_eq_eq_eq_not, Bool.not_false] at hok
      exact hbatch.trans (Outcome.eq_ok_of_isOk hok)
    · refine ⟨flushed, ?_, hposted⟩
      obtain ⟨more, hmore⟩ := ethernetIn_sent txHeap s.world (s₁.frames n r.1)
      show (ethernetIn txHeap s.world (s₁.frames n r.1)).state.sent =
        _ ++ (ethernetIn txHeap s.world (s₁.frames n r.1)).state.sent.drop s.world.sent.length
      rw [← hmore, List.drop_left, hlog]

/-- The transmit side of an interface moves, and sends nothing new. -/
theorem txStep (h : RouterOK heap txHeap w₀ ifs s) (n : Fin c) {t : TxSys}
    (ht : (TxOK t ∧ OnWire t) ∧ Within t) {q : Virtqueue} (hq : t.net = { s.nets n with txq := q })
    (hsent : t.sent = s.posted n) (hdone : s.txDone n ⊆ t.done) : RouterOK heap txHeap w₀ ifs (s.setTx n t) := by
  obtain ⟨hrx, htx, hsame⟩ := h.parts_setTx ht hq
  have hposted : Function.update s.posted n (s.posted n) = s.posted := Function.update_eq_self n _
  have hposted' : (s.setTx n t).posted = s.posted := by
    rw [← hposted, ← hsent]
    rfl
  have hout : ∀ x b, (s.setTx n t).outgoing x = some b → s.outgoing x = some b := by
    have hdone' : ∀ m p, p ∈ (s.txDone m).map Taken.pos → p ∈ ((s.setTx n t).txDone m).map Taken.pos := by
      intro m p hp
      show p ∈ (Function.update s.txDone n t.done m).map Taken.pos
      by_cases hm : m = n
      · rw [hm, Function.update_self]
        rw [hm] at hp
        exact List.map_subset _ hdone hp
      · rwa [Function.update_of_ne hm]
    have hpending : (s.setTx n t).pending = s.pending := rfl
    exact fun x b hb => outgoing_of_done hpending hposted' hdone' hb
  refine ⟨hrx, htx, hsame, h.apart.of_less (fun _ => le_rfl) rfl hout, h.count, h.written,
    fun x b hb => h.built x b (hout x b hb), h.handed, h.tables, h.running, ?_⟩
  simpa only [setTx, hsent, hposted] using h.log

theorem txTake (h : RouterOK heap txHeap w₀ ifs s) (n : Fin c) :
    RouterOK heap txHeap w₀ ifs (s.setTx n { s.txView n with dev := (s.txDev n).take (s.nets n).txq }) := by
  obtain ⟨⟨hok, hw⟩, hin⟩ := h.tx n
  exact h.txStep n (q := (s.nets n).txq) ⟨⟨hok.take, hw.take hok⟩, hin.step hok hw (o := .take) trivial rfl⟩
    rfl rfl (List.Subset.refl _)

theorem txComplete (h : RouterOK heap txHeap w₀ ifs s) (n : Fin c) (i : ℕ) (len : UInt32) :
    RouterOK heap txHeap w₀ ifs (s.setTx n ((s.txView n).complete i len)) := by
  obtain ⟨⟨hok, hw⟩, hin⟩ := h.tx n
  have hnet : ∃ q, ((s.txView n).complete i len).net = { s.nets n with txq := q } ∧
      ((s.txView n).complete i len).sent = s.posted n ∧ s.txDone n ⊆ ((s.txView n).complete i len).done := by
    unfold TxSys.complete
    split
    · exact ⟨_, rfl, rfl, List.subset_append_left _ _⟩
    · exact ⟨(s.nets n).txq, rfl, rfl, List.Subset.refl _⟩
  obtain ⟨q, hq, hsent, hdone⟩ := hnet
  exact h.txStep n ⟨⟨hok.complete i len, hw.complete i len⟩, hin.step hok hw (o := .complete i len) trivial rfl⟩
    hq hsent hdone

/-- **A frame of the nodes is posted.** -/
theorem flush (h : RouterOK heap txHeap w₀ ifs s) (ha : s.Careful heap txHeap .flush)
    (he : s.step heap txHeap .flush = .ok s') : RouterOK heap txHeap w₀ ifs s' := by
  simp only [Router.step] at he
  split at he
  rotate_left
  · obtain rfl := Except.ok.inj he
    exact h
  rename_i netif buffer rest hpend
  obtain ⟨flushed, hlog, hposted⟩ := h.log
  have hlog' : s.world.sent = w₀.sent ++ (flushed ++ [(netif, buffer)]) ++ rest := by
    rw [hlog, hpend]
    simp
  split at he
  · rename_i hlt
    obtain ⟨⟨hok, hw⟩, hin⟩ := h.tx ⟨netif.id, hlt⟩
    obtain ⟨t, ht, rfl⟩ := map_eq_ok.1 he
    have hroom := ha netif buffer rest hpend ⟨netif.id, hlt⟩ rfl
    have ht' := ht
    simp only [TxSys.step, hok.xmit_eq hw.N_pos] at ht'
    obtain rfl := Except.ok.inj ht'
    obtain ⟨hrx, htx, hsame⟩ := h.parts_setTx (q := (s.nets ⟨netif.id, hlt⟩).txq.stores buffer true)
      ⟨⟨hok.step ht, hw.step hok ht⟩, hin.step hok hw hroom ht⟩ rfl
    refine ⟨hrx, htx, hsame, ?_, h.count, h.written, fun x b hb => h.built _ b (outgoing_posted hpend rfl rfl hb),
      h.handed, h.tables, h.running, _, hlog', fun m => ?_⟩
    · exact h.apart.rename (BlockRef.before_injective _) (fun _ _ => rfl) (fun _ => le_rfl) rfl
        fun x b hb => outgoing_posted hpend rfl rfl hb
    simp only [setTx, txView]
    rw [List.filter_append, List.map_append, ← hposted m]
    by_cases hm : m = ⟨netif.id, hlt⟩
    · subst hm
      simp [hposted]
    · rw [Function.update_of_ne hm]
      have hne : netif.id ≠ m.val := fun hid => hm (Fin.ext hid.symm)
      simp [hne]
  · -- no such interface
    rename_i hlt
    obtain rfl := Except.ok.inj he
    refine ⟨h.rx, h.tx, h.same, ?_, h.count, h.written, fun x b hb => h.built _ b (outgoing_dropped hpend hb),
      h.handed, h.tables, h.running, _, hlog', fun m => ?_⟩
    · exact h.apart.rename (BlockRef.before_injective _) (fun _ _ => rfl) (fun _ => le_rfl) rfl
        fun x b hb => outgoing_dropped hpend hb
    have hne : netif.id ≠ m.val := fun hid => hlt (by rw [hid]; exact m.isLt)
    rw [List.filter_append, List.map_append, ← hposted m]
    simp [hne]

/-- **Every step of a careful run keeps the invariant.** -/
theorem step (h : RouterOK heap txHeap w₀ ifs s) {o : RouterOp c} (ha : s.Careful heap txHeap o)
    (he : s.step heap txHeap o = .ok s') : RouterOK heap txHeap w₀ ifs s' := by
  cases o with
  | rxTake n =>
    obtain rfl := Except.ok.inj he
    exact h.rxTake n
  | rxComplete n bytes =>
    obtain rfl := Except.ok.inj he
    exact h.rxComplete n bytes
  | txTake n =>
    obtain rfl := Except.ok.inj he
    exact h.txTake n
  | txComplete n i len =>
    obtain rfl := Except.ok.inj he
    exact h.txComplete n i len
  | interrupt n irqed =>
    simp only [Router.step] at he
    split at he
    · obtain rfl := Except.ok.inj he
      exact h
    · rename_i hrun
      rw [Bool.or_eq_true, not_or, Bool.not_eq_true, Bool.not_eq_true', Bool.not_eq_false] at hrun
      exact h.interrupt n ha hrun.1 (List.isEmpty_iff.1 hrun.2) he
  | flush => exact h.flush ha he

/-- Fresh drivers whose queues have power-of-two sizes. -/
theorem init {dev : Fin c → DeviceConfig} {mem : Fin c → ℕ → QueueMem} {nets : Fin c → VirtioNet}
    {allocs : Fin c → ℕ} {ram : UInt64 → ℕ → UInt8}
    (hk : ∀ n, (∃ k, ((dev n).queueSize 0).toNat = 2 ^ k) ∧ ∃ k, ((dev n).queueSize 1).toNat = 2 ^ k)
    (hnew : ∀ n : Fin c, VirtioNet.new n.val (dev n) (mem n) (heap n) = .ok (some (nets n, allocs n)))
    (hapart : Apart heap (.init nets allocs ram w₀)) :
    RouterOK heap txHeap w₀ (fun n => ⟨n.val, (nets n).macaddr⟩) (.init nets allocs ram w₀) := by
  refine ⟨?_, ?_, fun n => rfl, hapart, fun n => rfl, ?_, ?_, fun n => .nil, rfl, fun _ => rfl, [], ?_,
    fun n => rfl⟩
  · intro n
    obtain ⟨⟨k, hk⟩, -⟩ := hk n
    exact RxOK.init hk (hnew n)
  · intro n
    obtain ⟨-, k, hk⟩ := hk n
    exact (Within.reach hk (hnew n) .start)
  · intro n j bytes hget
    cases hget
  · -- no frame has been sent
    intro x b hb
    cases x with
    | receive n i => cases hb
    | waiting i => cases hb
    | transmit n p => cases hb
  · show w₀.sent = w₀.sent ++ [] ++ []
    simp

theorem reach {s₀ : Router c} (h0 : RouterOK heap txHeap w₀ ifs s₀)
    (h : Reach (Router.step heap txHeap) (Careful heap txHeap) s₀ s) : RouterOK heap txHeap w₀ ifs s :=
  h.inv h0 fun _ _ _ hs ha he => hs.step ha he

end RouterOK

/-- The first pages of the allocator are different ones. -/
theorem pages_inj {i j : ℕ} (hi : i < 65536) (hj : j < 65536) (h : (pages i).ptr = (pages j).ptr) : i = j := by
  have h' := congrArg UInt64.toNat h
  simp only [pages, UInt64.toNat_mul, UInt64.toNat_add, UInt64.toNat_ofNat', UInt64.reduceToNat] at h'
  omega

theorem pages_le {i : ℕ} (hi : i < 65536) : (pages i).ptr.toNat ≤ 268435456 := by
  simp only [pages, UInt64.toNat_mul, UInt64.toNat_add, UInt64.toNat_ofNat', UInt64.reduceToNat]
  omega

/-- An allocator of pages above those. -/
def txPages (i : ℕ) : Block := pages (65536 + i)

namespace Router

/-- Interrupts of one interface whose blocks are of the two allocators of pages, up to the first
frame that is sent. -/
def CarefulOne (s : Router 1) : RouterOp 1 → Prop
  | .interrupt n true => RefillSafe (s.nets n).rxq ∧
      ∀ s' ∈ (s.interrupt (fun _ => pages) txPages n true).toOption, s'.allocs 0 ≤ 65536 ∧
        (s'.posted 0).length = 0 ∧ s'.pending.length ≤ 1 ∧ ∀ x ∈ s'.pending, 268435456 < x.2.getAddress.toNat
  | .flush => ∀ n : Fin 1, (s.posted n).length < (s.txDev n).taken + (s.nets n).txq.size.toNat
  | .interrupt _ false | .rxTake _ | .rxComplete _ _ | .txTake _ | .txComplete _ _ _ => True

instance (s : Router 1) (o : RouterOp 1) : Decidable (s.CarefulOne o) :=
  match o with
  | .interrupt n true => inferInstanceAs (Decidable (RefillSafe (s.nets n).rxq ∧
      ∀ s' ∈ (s.interrupt (fun _ => pages) txPages n true).toOption, s'.allocs 0 ≤ 65536 ∧
        (s'.posted 0).length = 0 ∧ s'.pending.length ≤ 1 ∧ ∀ x ∈ s'.pending, 268435456 < x.2.getAddress.toNat))
  | .flush => inferInstanceAs (Decidable (∀ _ : Fin 1, _))
  | .interrupt _ false | .rxTake _ | .rxComplete _ _ | .txTake _ | .txComplete _ _ _ =>
    inferInstanceAs (Decidable True)

/-- The receive buffers are below the only frame. -/
theorem apart_one {s : Router 1} (hallocs : s.allocs 0 ≤ 65536) (hposted : (s.posted 0).length = 0)
    (hpending : s.pending.length ≤ 1) (habove : ∀ x ∈ s.pending, 268435456 < x.2.getAddress.toNat) :
    Apart (fun _ => pages) s := by
  have hcases : ∀ x a, s.address (fun _ => pages) x = some a →
      (∃ i < 65536, x = .receive 0 i ∧ (pages i).ptr = a) ∨ x = .waiting 0 ∧ 268435456 < a.toNat := by
    intro x a hx
    cases x with
    | receive n i =>
      obtain rfl := Subsingleton.elim n 0
      obtain ⟨⟨-, hi⟩, ha⟩ := address_receive_iff.1 hx
      exact .inl ⟨i, hi.trans_le hallocs, rfl, ha⟩
    | waiting i =>
      obtain ⟨b, hb, rfl⟩ := Option.map_eq_some_iff.1 hx
      obtain ⟨y, hy, rfl⟩ := Option.map_eq_some_iff.1 (outgoing_waiting_iff.1 hb)
      have hlt := (List.getElem?_eq_some_iff.1 hy).1
      exact .inr ⟨congrArg BlockRef.waiting (by omega), habove y (List.mem_of_getElem? hy)⟩
    | transmit n p =>
      obtain rfl := Subsingleton.elim n 0
      obtain ⟨b, hb, -⟩ := Option.map_eq_some_iff.1 hx
      have hlt := (List.getElem?_eq_some_iff.1 (outgoing_transmit_iff.1 hb).2).1
      omega
  intro x y a hx hy
  rcases hcases x a hx with ⟨i, hi, rfl, ha⟩ | ⟨rfl, ha⟩
  · rcases hcases y a hy with ⟨j, hj, rfl, ha'⟩ | ⟨rfl, ha'⟩
    · exact congrArg _ (pages_inj hi hj (ha.trans ha'.symm))
    · exact absurd (ha ▸ pages_le hi) (Nat.not_le.2 ha')
  · rcases hcases y a hy with ⟨j, hj, rfl, ha'⟩ | ⟨rfl, -⟩
    · exact absurd (ha' ▸ pages_le hj) (Nat.not_le.2 ha)
    · rfl

theorem CarefulOne.careful {s : Router 1} {o : RouterOp 1} (h : s.CarefulOne o) :
    s.Careful (fun _ => pages) txPages o := by
  cases o with
  | interrupt n irqed =>
    cases irqed with
    | false => trivial
    | true =>
      refine ⟨h.1, fun s' hs' => ?_⟩
      obtain ⟨hallocs, hposted, hpending, habove⟩ := h.2 s' (Option.mem_def.2 (congrArg Except.toOption hs'))
      exact apart_one hallocs hposted hpending habove
  | flush =>
    intro netif buffer rest _ n _
    exact h n
  | rxTake n => trivial
  | rxComplete n bytes => trivial
  | txTake n => trivial
  | txComplete n i len => trivial

/-- An ARP request for the router's address, behind an empty virtio header. -/
def requestBytes : List UInt8 :=
  List.replicate 12 0 ++ [0xff, 0xff, 0xff, 0xff, 0xff, 0xff, 4, 0, 0, 0, 0, 9, 0x08, 0x06] ++
    [0, 1, 8, 0, 6, 4, 0, 1, 4, 0, 0, 0, 0, 9, 192, 168, 0, 20, 0, 0, 0, 0, 0, 0, 192, 168, 0, 10]

/-- A run in which a request comes in and the device fetches the reply. -/
theorem exists_request_run : ∃ (net : VirtioNet) (allocs : ℕ) (s : Router 1),
    (∀ n : Fin 1, VirtioNet.new n.val .rx64 (fun _ => .zero) pages = .ok (some (net, allocs))) ∧
    Apart (fun _ => pages) (.init (fun _ : Fin 1 => net) (fun _ => allocs) (fun _ _ => 0) World.test) ∧
    Reach (Router.step (fun _ : Fin 1 => pages) txPages) (Careful (fun _ => pages) txPages)
      (.init (fun _ => net) (fun _ => allocs) (fun _ _ => 0) World.test) s ∧
    s.batches.length = 1 ∧ s.pending = [] ∧ (s.txDev 0).taken = 1 ∧ (s.txDev 0).inflight.length = 1 ∧
    UInt16.ofNat (s.txDev 0).taken = (s.nets 0).txq.avail.idx := by
  have hrun : (runNet .rx64 (fun net allocs => init (fun _ => net) (fun _ => allocs) (fun _ _ => 0) World.test)
      (Router.step (fun _ : Fin 1 => pages) txPages) CarefulOne
      [.rxTake 0, .rxComplete 0 requestBytes, .interrupt 0 true, .flush, .txTake 0]).map
      (fun s => (s.batches.length, s.pending.length, (s.txDev 0).taken, (s.txDev 0).inflight.length,
        decide (UInt16.ofNat (s.txDev 0).taken = (s.nets 0).txq.avail.idx))) = some (1, 0, 1, 1, true) := by
    decide +kernel
  obtain ⟨s, hs, hobs⟩ := Option.map_eq_some_iff.1 hrun
  simp only [Prod.mk.injEq, decide_eq_true_eq] at hobs
  obtain ⟨hbatches, hpending, htaken, hheld, hidle⟩ := hobs
  unfold runNet at hs
  split at hs
  rotate_left
  · cases hs
  rename_i net allocs hnew
  have hallocs : allocs ≤ 65536 := by
    have hle : ∀ r ∈ (VirtioNet.new 0 .rx64 (fun _ => .zero) pages).toOption, ∀ x ∈ r, x.2 ≤ 65536 := by
      decide +kernel
    exact hle (some (net, allocs)) (by rw [hnew]; rfl) (net, allocs) rfl
  refine ⟨net, allocs, s, fun n => ?_, apart_one hallocs rfl (Nat.zero_le 1) (fun _ hx => by cases hx),
    (Reach.of_runIf _ hs).mono fun _ _ h => h.careful, hbatches, List.length_eq_zero_iff.1 hpending, htaken,
    hheld, hidle⟩
  rw [Subsingleton.elim n 0]
  exact hnew

end Router

end Urchin
