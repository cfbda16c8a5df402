import Urchin.Proof.Fifo
import Urchin.Spec.VirtioNet

/-!
# The receive path

`fill_rx_queue` runs before `pop` and counts free entries by `used.idx`, so it
reuses descriptors that the device has returned and `pop` has not handed out. It is
harmless when the refill is not due, or when it is due with at most one such
descriptor and `avail.idx` has not wrapped past `used.idx` (`RefillSafe`). In runs
where every interrupt meets that, the receive queue is a FIFO (`RxOK`), and what
reaches `ethernet-in` is what the device returned (`receive_in_order`). A burst of
two packets at the first interrupt breaks it (`burst_misdelivery`).
-/

namespace Urchin

open Exec Circ

/-- The `i`-th receive buffer of a driver. -/
def rxBuffer (heap : ℕ → Block) (size : UInt64) (i : ℕ) : Buffer :=
  ⟨(heap i).ptr, size, 0, ⟨size, ALIGN⟩, (heap i).bytes⟩

/-- Receive buffers are whole pages, so their allocation is exactly their size. -/
theorem new_rxBuffer (heap : ℕ → Block) (m t u : Bool) (i : ℕ) :
    Buffer.new (VirtioNet.bufferSize m t u) ALIGN (heap i) =
      .ok (rxBuffer heap (VirtioNet.bufferSize m t u) i) := by
  unfold VirtioNet.bufferSize
  split
  · rfl
  · rfl

/-- The buffers pushed by the first `n` allocations. -/
def rxPushed (heap : ℕ → Block) (size : UInt64) (n : ℕ) : List (Buffer × Bool) :=
  (List.range n).map fun i => (rxBuffer heap size i, false)

theorem rxPushed_succ (heap : ℕ → Block) (size : UInt64) (n : ℕ) :
    rxPushed heap size (n + 1) = rxPushed heap size n ++ [(rxBuffer heap size n, false)] := by
  simp [rxPushed, List.range_succ]

theorem rxPushed_length (heap : ℕ → Block) (size : UInt64) (n : ℕ) :
    (rxPushed heap size n).length = n := by simp [rxPushed]

/-- **The fill loop** posts one buffer a round, as long as there is room between
`push` and `pop`. -/
theorem fillLoop_ok (heap : ℕ → Block) (m t u : Bool) (count : ℕ) :
    ∀ (s : QueueSys) (n : ℕ), FifoOK s → s.pushed = rxPushed heap (VirtioNet.bufferSize m t u) n →
      n + count ≤ s.popped.length + s.N →
      ∃ q', VirtioNet.fillLoop heap (VirtioNet.bufferSize m t u) count s.q n = .ok (q', n + count) ∧
        FifoOK { s with q := q', pushed := rxPushed heap (VirtioNet.bufferSize m t u) (n + count) } ∧
        q'.used = s.q.used ∧ q'.lastUsedIdx = s.q.lastUsedIdx ∧ q'.size = s.q.size := by
  induction count with
  | zero =>
    intro s n h hp _
    refine ⟨s.q, rfl, ?_, rfl, rfl, rfl⟩
    simpa only [Nat.add_zero, ← hp] using h
  | succ count ih =>
    intro s n h hp hroom
    have hlen : s.pushed.length = n := by rw [hp, rxPushed_length]
    -- the descriptor the push selects was handed out a lap ago
    have hrec : s.Recycled := h.recycled (by omega)
    set b := rxBuffer heap (VirtioNet.bufferSize m t u) n with hb
    obtain ⟨hstep, hok⟩ := h.push_ok hrec b false
    have hpush : s.q.push b false = .ok (.ok (), s.q.stores b false) := by
      apply Virtqueue.push_eq
      · rw [h.avail]; exact h.slot_lt _
      · exact h.free_lt
    have hf := s.q.stores_eq b false
    obtain ⟨q', hq', hok', h1, h2, h3⟩ := ih { s with q := s.q.stores b false, pushed := s.pushed ++ [(b, false)] }
      (n + 1) ⟨hok, h.order⟩ (by rw [rxPushed_succ, ← hp]) (by
        show n + 1 + count ≤ s.popped.length + (s.q.stores b false).size.toNat
        rw [hf]; show n + 1 + count ≤ s.popped.length + s.N; omega)
    refine ⟨q', ?_, ?_, ?_, ?_, ?_⟩
    · simp only [VirtioNet.fillLoop, new_rxBuffer, ← hb, hpush, hq']
      rw [show n + 1 + count = n + (count + 1) by omega]
    · rw [show n + (count + 1) = n + 1 + count by omega]; exact hok'
    · rw [h1]; show (s.q.stores b false).used = _; rw [hf]
    · rw [h2]; show (s.q.stores b false).lastUsedIdx = _; rw [hf]
    · rw [h3]; show (s.q.stores b false).size = _; rw [hf]

/-! ## The invariant -/

/-- Before an interrupt: if the refill is due, at most one descriptor is returned
and not handed out, and `avail.idx` is not behind `used.idx`. -/
def RefillSafe (q : Virtqueue) : Prop :=
  q.getAvailFreeSize - 1 > 32 → q.used.idx ≤ q.avail.idx ∧ (q.used.idx - q.lastUsedIdx).toNat ≤ 1

instance (q : Virtqueue) : Decidable (RefillSafe q) := inferInstanceAs (Decidable (_ → _))

namespace RxSys

/-- The run's interrupts all find a safe refill. -/
def SafeRefills (s : RxSys) : RxOp → Prop
  | .interrupt true => RefillSafe s.net.rxq
  | .interrupt false | .take | .complete _ => True

instance (s : RxSys) (o : RxOp) : Decidable (s.SafeRefills o) :=
  match o with
  | .interrupt true => inferInstanceAs (Decidable (RefillSafe _))
  | .interrupt false | .take | .complete _ => inferInstanceAs (Decidable True)

/-- The receive queue with its history; `n` buffers have been handed out. -/
def view (heap : ℕ → Block) (s : RxSys) : QueueSys :=
  { q := s.net.rxq
    dev := s.dev
    pushed := rxPushed heap s.net.rxBufferSize s.allocs
    done := s.done
    popped := ((rxPushed heap s.net.rxBufferSize s.allocs).map Prod.fst).take s.delivered.length }

@[simp] theorem view_N (heap : ℕ → Block) (s : RxSys) : (s.view heap).N = s.net.rxq.size.toNat := rfl

@[simp] theorem view_done (heap : ℕ → Block) (s : RxSys) : (s.view heap).done = s.done := rfl

@[simp] theorem view_pushed_length (heap : ℕ → Block) (s : RxSys) :
    (s.view heap).pushed.length = s.allocs := rxPushed_length _ _ _

end RxSys

/-- The receive queue is a FIFO with an entry to spare, and `ethernet-in` got the
buffers handed out. -/
structure RxOK (heap : ℕ → Block) (s : RxSys) : Prop where
  fifo : FifoOK (s.view heap)
  spare : s.allocs < s.done.length + s.net.rxq.size.toNat
  out : s.delivered = (s.view heap).popped.map (·.slidePosition 12)

namespace RxOK

variable {heap : ℕ → Block} {s : RxSys}

theorem popped_length (h : RxOK heap s) : (s.view heap).popped.length = s.delivered.length := by
  rw [h.out, List.length_map]

theorem lag (h : RxOK heap s) : s.delivered.length ≤ s.done.length := by
  rw [← h.popped_length]
  exact h.fifo.lag

/-- The driver leaves an entry unused, so the queue is never full. -/
theorem free_eq (h : RxOK heap s) (hle : s.net.rxq.used.idx ≤ s.net.rxq.avail.idx) :
    s.net.rxq.getAvailFreeSize.toNat + s.allocs = s.done.length + s.net.rxq.size.toNat := by
  have hu : s.net.rxq.used.idx = UInt16.ofNat s.done.length := h.fifo.used
  have ha : s.net.rxq.avail.idx = UInt16.ofNat s.allocs := by
    rw [← s.view_pushed_length heap]
    exact h.fifo.avail
  have hN : s.net.rxq.size.toNat ≤ 32768 := h.fifo.N_le
  have hda : s.done.length ≤ s.allocs := by
    have h1 := h.fifo.done_le_pushed
    rw [s.view_pushed_length heap, RxSys.view_done] at h1
    omega
  have hs := h.spare
  have hsub : (s.net.rxq.avail.idx - s.net.rxq.used.idx).toNat = s.allocs - s.done.length := by
    rw [ha, hu]; exact word_sub hda (by omega)
  unfold Virtqueue.getAvailFreeSize Virtqueue.getSize
  rw [if_pos hle, UInt16.toNat_sub_of_le _ _ (by rw [UInt16.le_iff_toNat_le, hsub]; omega), hsub]
  omega

/-- Filling while there is room keeps the queue a FIFO and hands nothing out. -/
theorem fill_ok (h : RxOK heap s) (count : ℕ)
    (hroom : s.allocs + count ≤ s.delivered.length + s.net.rxq.size.toNat)
    (hspare : s.allocs + count < s.done.length + s.net.rxq.size.toNat) :
    ∃ q', VirtioNet.fillLoop heap s.net.rxBufferSize count s.net.rxq s.allocs = .ok (q', s.allocs + count) ∧
      RxOK heap { s with net := { s.net with rxq := q' }, allocs := s.allocs + count } := by
  obtain ⟨q', hq', hok, -, -, hsize⟩ := fillLoop_ok heap _ _ _ count (s.view heap) s.allocs h.fifo rfl
    (by rw [h.popped_length]; exact hroom)
  have hpre : (s.view heap).popped =
      ((rxPushed heap s.net.rxBufferSize (s.allocs + count)).map Prod.fst).take s.delivered.length := by
    have hlen := h.popped_length
    rw [hok.popped_eq_take]
    simp only [hlen]
    rfl
  refine ⟨q', hq', ⟨?_, ?_, ?_⟩⟩
  · have := hok
    unfold RxSys.view at this hpre ⊢
    simp only at this hpre ⊢
    rw [hpre] at this
    exact this
  · simp only [hsize]; exact hspare
  · have hout := h.out
    rw [hpre] at hout
    exact hout

theorem take_ok (h : RxOK heap s) : RxOK heap { s with dev := s.dev.take s.net.rxq } := by
  obtain ⟨s', hs', hok⟩ := h.fifo.step_ok (o := .take) trivial
  obtain rfl := Except.ok.inj hs'
  exact ⟨hok, h.spare, h.out⟩

theorem complete_ok (h : RxOK heap s) (len : UInt32) : RxOK heap (s.complete len) := by
  obtain ⟨s', hs', hok⟩ := h.fifo.step_ok (o := .complete 0 len) rfl
  obtain rfl := Except.ok.inj hs'
  unfold RxSys.complete
  split
  · rename_i t rest hin
    refine ⟨?_, ?_, h.out⟩
    · have hget : (s.view heap).dev.inflight[0]? = some t := by
        show s.dev.inflight[0]? = some t
        rw [hin]; rfl
      have hrest : (s.view heap).dev.inflight.eraseIdx 0 = rest := by
        show s.dev.inflight.eraseIdx 0 = rest
        rw [hin]; rfl
      unfold QueueSys.complete at hok
      simp only [hget, hrest] at hok
      exact hok
    · have hs := h.spare
      simp only [List.length_append, List.length_singleton, Virtqueue.complete]
      omega
  · exact h

/-- `pop` hands `ethernet-in` everything the device has returned. -/
theorem pop_ok (h : RxOK heap s) : ∃ out q', s.net.rxq.pop = .ok (out, q') ∧
    RxOK heap { s with
      net := { s.net with rxq := q' }
      delivered := s.delivered ++ out.map (·.slidePosition 12) } ∧
    (s.delivered ++ out.map (·.slidePosition 12)).length = s.done.length := by
  obtain ⟨out, q', hq', hlen, hok⟩ := h.fifo.pop_ok
  have hfifo : FifoOK { s.view heap with q := q', popped := (s.view heap).popped ++ out } :=
    ⟨hok, h.fifo.order⟩
  have hlen' : (s.delivered ++ out.map (·.slidePosition 12)).length = s.done.length := by
    have hp := h.popped_length
    rw [List.length_append] at hlen ⊢
    rw [List.length_map, ← hp]
    exact hlen
  obtain ⟨bufs, last, hframe⟩ := Virtqueue.pop_frame hq'
  have hpre : (s.view heap).popped ++ out = ((rxPushed heap s.net.rxBufferSize s.allocs).map Prod.fst).take
      (s.delivered ++ out.map (·.slidePosition 12)).length := by
    have := hfifo.popped_eq_take
    rw [hlen'.trans (show s.done.length = _ from hlen.symm)]
    exact this
  refine ⟨out, q', hq', ⟨?_, ?_, ?_⟩, hlen'⟩
  · rw [hpre] at hfifo
    exact hfifo
  · have hs : q'.size = s.net.rxq.size := by rw [hframe]; rfl
    simp only [hs]
    exact h.spare
  · have hout := h.out
    have : s.delivered ++ out.map (·.slidePosition 12) =
        ((s.view heap).popped ++ out).map (·.slidePosition 12) := by
      rw [List.map_append, ← hout]
    rw [hpre] at this
    exact this

/-- **A safe refill** posts buffers only into descriptors that `pop` has handed out. -/
theorem fillRxQueue_ok (h : RxOK heap s) (hsafe : RefillSafe s.net.rxq) :
    ∃ q' n, s.net.fillRxQueue heap s.allocs = .ok ({ s.net with rxq := q' }, n) ∧
      RxOK heap { s with net := { s.net with rxq := q' }, allocs := n } := by
  unfold VirtioNet.fillRxQueue
  simp only
  split
  · rename_i hdue
    obtain ⟨hle, hburst⟩ := hsafe hdue
    have hfree := h.free_eq hle
    have hs := h.spare
    have hlag : s.delivered.length ≤ s.done.length := h.lag
    have hdone := h.fifo.done_le
    have hN := h.fifo.N_le
    simp only [h.popped_length, RxSys.view_done, RxSys.view_N] at hdone hN
    have hu : s.net.rxq.used.idx = UInt16.ofNat s.done.length := h.fifo.used
    have hl : s.net.rxq.lastUsedIdx = UInt16.ofNat s.delivered.length := by
      rw [← h.popped_length]; exact h.fifo.last
    have hone : s.done.length ≤ s.delivered.length + 1 := by
      rw [hu, hl, word_sub hlag (by omega)] at hburst
      omega
    -- all but one of the free entries are filled
    have hcount : (s.net.rxq.getAvailFreeSize - 1).toNat + 1 = s.net.rxq.getAvailFreeSize.toNat := by
      rw [UInt16.toNat_sub_of_le _ _ (by rw [UInt16.le_iff_toNat_le]; simp; omega)]
      simp; omega
    obtain ⟨q', hq', hok⟩ := h.fill_ok (s.net.rxq.getAvailFreeSize - 1).toNat (by omega) (by omega)
    refine ⟨q', _, ?_, hok⟩
    rw [hq']
    rfl
  · exact ⟨s.net.rxq, s.allocs, rfl, h⟩

/-- **A safe interrupt** hands `ethernet-in` everything the device returned, from
descriptors the device no longer owns. -/
theorem interrupt_ok (h : RxOK heap s) (hsafe : RefillSafe s.net.rxq) :
    ∃ s', s.step heap (.interrupt true) = .ok s' ∧ RxOK heap s' ∧ s'.dev = s.dev ∧ s'.done = s.done ∧
      s'.delivered.length = s.done.length ∧
      ∀ t ∈ s.done.drop s.delivered.length,
        (∀ t' ∈ s.dev.inflight, t'.head ≠ t.head) ∧
        ∀ j, s.dev.taken ≤ j → j < s'.allocs →
          s'.net.rxq.availRing (j % s'.net.rxq.size.toNat) ≠ t.head := by
  obtain ⟨q₁, n, hfill, h₁⟩ := h.fillRxQueue_ok hsafe
  obtain ⟨out, q₂, hpop, h₂, hlen⟩ := h₁.pop_ok
  refine ⟨_, ?_, h₂, rfl, rfl, hlen, ?_⟩
  · simp only [RxSys.step, VirtioNet.interruptHandler, if_true, hfill, hpop, bind, Except.bind, Except.map]
  · intro t ht
    rw [← h₁.popped_length] at ht
    obtain ⟨hheld, hring⟩ := h₁.fifo.returned_free ht
    refine ⟨hheld, ?_⟩
    intro j hj hjn
    obtain ⟨bufs, last, hframe⟩ := Virtqueue.pop_frame hpop
    have hne := hring j hj (by rw [RxSys.view_pushed_length]; exact hjn)
    simp only [hframe]
    exact hne

/-- **Every step of a run with safe refills succeeds and keeps the invariant.** -/
theorem step_ok (h : RxOK heap s) {o : RxOp} (ho : s.SafeRefills o) :
    ∃ s', s.step heap o = .ok s' ∧ RxOK heap s' := by
  cases o with
  | take => exact ⟨_, rfl, h.take_ok⟩
  | complete len => exact ⟨_, rfl, h.complete_ok len⟩
  | interrupt irqed =>
    cases irqed with
    | false => exact ⟨s, by simp [RxSys.step, VirtioNet.interruptHandler, Except.map], h⟩
    | true =>
      obtain ⟨s', hs', hok, -⟩ := h.interrupt_ok ho
      exact ⟨s', hs', hok⟩

end RxOK

/-- A driver starts with a filled receive queue and a fresh transmit queue. -/
theorem VirtioNet.new_queues {id : ℕ} {dev : DeviceConfig} {mem : ℕ → QueueMem} {heap : ℕ → Block}
    {net : VirtioNet} {allocs : ℕ} (h : VirtioNet.new id dev mem heap = .ok (some (net, allocs))) :
    ∃ g q, Virtqueue.new (dev.queueSize 0) g true (mem 0) = some q ∧
      VirtioNet.fillLoop heap net.rxBufferSize (q.getAvailFreeSize / 3).toNat q 0 =
        .ok (net.rxq, allocs) ∧
      Virtqueue.new (dev.queueSize 1) g false (mem 1) = some net.txq := by
  unfold VirtioNet.new at h
  split at h
  rotate_left
  · cases h
  simp only at h
  split at h
  rotate_left
  · cases h
  -- all three queues get their layout, whatever their sizes
  set g := (dev.features &&& VirtioNet.drvFeatures &&& 0x10000000) != 0 with hg
  have hq : ∀ idx n, ∃ q, VirtioNet.setupQueue dev mem g idx n = .ok q ∧
      Virtqueue.new (dev.queueSize idx) g n (mem idx) = some q := by
    intro idx n
    obtain ⟨q, hq⟩ := Option.isSome_iff_exists.1 (Virtqueue.new_isSome (dev.queueSize idx) g n (mem idx))
    exact ⟨q, by simp [VirtioNet.setupQueue, hq], hq⟩
  obtain ⟨q0, h0, hn⟩ := hq 0 true
  obtain ⟨q1, h1, hn₁⟩ := hq 1 false
  obtain ⟨q2, h2, -⟩ := hq 2 true
  refine ⟨g, q0, hn, ?_⟩
  simp only [h0, h1, h2, bind, Except.bind] at h
  split at h
  · cases h
  · rename_i r hr
    simp only [Except.ok.injEq, Option.some.injEq, Prod.mk.injEq] at h
    obtain ⟨h, rfl⟩ := h
    subst h
    exact ⟨hr, hn₁⟩

/-- The driver starts with a third of its receive queue filled. -/
theorem RxOK.init {id k : ℕ} {dev : DeviceConfig} {mem : ℕ → QueueMem} {heap : ℕ → Block}
    {net : VirtioNet} {allocs : ℕ} (hk : (dev.queueSize 0).toNat = 2 ^ k)
    (hnew : VirtioNet.new id dev mem heap = .ok (some (net, allocs))) : RxOK heap (.init net allocs) := by
  obtain ⟨g, q, hq, hfill, -⟩ := VirtioNet.new_queues hnew
  obtain ⟨hsize, ha, hu, -, -⟩ := Virtqueue.new_fields hq
  have hfree : (q.getAvailFreeSize / 3).toNat = q.size.toNat / 3 := by
    unfold Virtqueue.getAvailFreeSize Virtqueue.getSize
    rw [ha, hu]
    simp
  rw [hfree] at hfill
  have hfifo : FifoOK (.init q) := ⟨QueueOK.init hk hq, rfl⟩
  have hpos : 0 < q.size.toNat := by rw [hsize, hk]; positivity
  obtain ⟨q', hq', hok, -, -, hsize'⟩ := fillLoop_ok heap net.flagMergeableRxbufs net.flagGuestTso4
    net.flagGuestUfo (q.size.toNat / 3) (.init q) 0 hfifo rfl (by
      show 0 + q.size.toNat / 3 ≤ 0 + q.size.toNat
      omega)
  have heq := hfill.symm.trans hq'
  simp only [Except.ok.injEq, Prod.mk.injEq] at heq
  obtain ⟨hrxq, hallocs⟩ := heq
  refine ⟨?_, ?_, rfl⟩
  · unfold RxSys.view
    simp only [RxSys.init, List.length_nil, List.take_zero, hrxq, hallocs]
    exact hok
  · simp only [RxSys.init, List.length_nil, hrxq, hallocs, hsize']
    show 0 + q.size.toNat / 3 < 0 + q.size.toNat
    omega

theorem RxOK.reach {heap : ℕ → Block} {s₀ s : RxSys} (h0 : RxOK heap s₀)
    (h : Reach (RxSys.step heap) RxSys.SafeRefills s₀ s) : RxOK heap s := by
  refine h.inv h0 ?_
  intro s o s' hs ho he
  obtain ⟨s'', h1, h2⟩ := hs.step_ok ho
  rw [h1] at he
  obtain rfl := Except.ok.inj he
  exact h2

/-- What `ethernet-in` got `i`-th is the `i`-th buffer posted, and the `i`-th entry
the device returned described that buffer when the device took it. -/
theorem RxOK.delivered_eq {heap : ℕ → Block} {s : RxSys} (h : RxOK heap s) {i : ℕ} {b : Buffer}
    (hb : s.delivered[i]? = some b) : ∃ t, s.done[i]? = some t ∧ t.pos = i ∧
      Describes t.desc (rxBuffer heap s.net.rxBufferSize i, false) ∧
      b = (rxBuffer heap s.net.rxBufferSize i).slidePosition 12 := by
  have hi : i < s.delivered.length := (List.getElem?_eq_some_iff.1 hb).1
  have hid : i < s.done.length := lt_of_lt_of_le hi h.lag
  have hpos : s.done[i].pos = i := by
    have hget := congrArg (·[i]?) h.fifo.done_pos
    simpa [List.getElem?_eq_getElem hid, List.getElem?_range hid] using hget
  have hia : i < s.allocs := by
    have h1 := h.fifo.done_le_pushed
    rw [s.view_pushed_length heap, RxSys.view_done] at h1
    omega
  have hpush : (s.view heap).pushed[i]? = some (rxBuffer heap s.net.rxBufferSize i, false) := by
    simp [RxSys.view, rxPushed, hia]
  refine ⟨s.done[i], List.getElem?_eq_getElem hid, hpos, ?_, ?_⟩
  · apply (h.fifo.entry s.done[i] (List.mem_append_left _ (List.getElem_mem hid))).2
    rw [hpos]
    exact hpush
  · rw [h.out] at hb
    simp only [RxSys.view, List.getElem?_map, List.getElem?_take_of_lt hi, rxPushed,
      List.getElem?_range hia, Option.map_some, Option.some.injEq] at hb
    exact hb.symm

/-- What `ethernet-in` gets has the shape the nodes rely on. -/
theorem RxOK.received {heap : ℕ → Block} {s : RxSys} (h : RxOK heap s) {b : Buffer}
    (hb : b ∈ s.delivered) : VirtioNet.Received b := by
  obtain ⟨i, hi⟩ := List.mem_iff_getElem?.1 hb
  obtain ⟨t, -, -, -, rfl⟩ := h.delivered_eq hi
  refine ⟨rfl, ?_⟩
  unfold rxBuffer Buffer.slidePosition VirtioNet.rxBufferSize VirtioNet.bufferSize
  split
  · exact .inr rfl
  · exact .inl rfl

/-- **The receive path loses and duplicates nothing while refills are safe.** In
every state of every run of a driver whose receive queue has a power-of-two size,
with an in-order device and safe refills:
* the `i`-th buffer handed to `ethernet-in` is the `i`-th one posted, the device
  returned that posting `i`-th, and its descriptor described that buffer when the
  device took it;
* an interrupt whose refill is safe does not panic, hands over everything the
  device has returned, and none of what it hands over has a descriptor that the
  device holds or finds in the avail ring. -/
theorem receive_in_order {id k : ℕ} {dev : DeviceConfig} {mem : ℕ → QueueMem} {heap : ℕ → Block}
    {net : VirtioNet} {allocs : ℕ} (hk : (dev.queueSize 0).toNat = 2 ^ k)
    (hnew : VirtioNet.new id dev mem heap = .ok (some (net, allocs))) {s : RxSys}
    (h : Reach (RxSys.step heap) RxSys.SafeRefills (.init net allocs) s) :
    s.delivered.length ≤ s.done.length ∧
    (∀ i b, s.delivered[i]? = some b → ∃ t, s.done[i]? = some t ∧ t.pos = i ∧
      Describes t.desc (rxBuffer heap s.net.rxBufferSize i, false) ∧
      b = (rxBuffer heap s.net.rxBufferSize i).slidePosition 12) ∧
    (RefillSafe s.net.rxq → ∃ s', s.step heap (.interrupt true) = .ok s' ∧ s'.dev = s.dev ∧
      s'.done = s.done ∧ s'.delivered.length = s.done.length ∧
      ∀ t ∈ s.done.drop s.delivered.length,
        (∀ t' ∈ s'.dev.inflight, t'.head ≠ t.head) ∧
        ∀ j, s'.dev.taken ≤ j → j < s'.allocs →
          s'.net.rxq.availRing (j % s'.net.rxq.size.toNat) ≠ t.head) := by
  have hok : RxOK heap s := RxOK.reach (RxOK.init hk hnew) h
  refine ⟨hok.lag, fun i b hb => hok.delivered_eq hb, fun hsafe => ?_⟩
  obtain ⟨s', hs', -, hdev, hdone, hlen, hown⟩ := hok.interrupt_ok hsafe
  refine ⟨s', hs', hdev, hdone, hlen, ?_⟩
  rw [hdev]
  exact hown

/-- A device with a receive queue of 64 entries. -/
def DeviceConfig.rx64 : DeviceConfig :=
  { type := 1, features := 0, isLegacy := true, featuresOk := true, config := fun _ => 0
    queueSize := fun i => if i = 0 then 64 else 2, tsc := 0 }

/-- A run of a part `σ` of the driver for the device `dev`, given by its steps, over
cleared memory. -/
def runNet {σ ο : Type*} (dev : DeviceConfig) (start : VirtioNet → ℕ → σ) (step : σ → ο → Except Panic σ)
    (allowed : σ → ο → Prop) [∀ s o, Decidable (allowed s o)] (os : List ο) : Option σ :=
  match VirtioNet.new 0 dev (fun _ => .zero) pages with
  | .ok (some (net, allocs)) => runIf step allowed (start net allocs) os
  | _ => none

theorem reach_runNet {σ ο : Type*} {dev : DeviceConfig} {start : VirtioNet → ℕ → σ}
    {step : σ → ο → Except Panic σ} {allowed : σ → ο → Prop} [∀ s o, Decidable (allowed s o)] {os : List ο}
    {s : σ} (h : runNet dev start step allowed os = some s) :
    ∃ net allocs, VirtioNet.new 0 dev (fun _ => .zero) pages = .ok (some (net, allocs)) ∧
      Reach step allowed (start net allocs) s := by
  unfold runNet at h
  split at h
  · rename_i net allocs hnew
    exact ⟨net, allocs, hnew, Reach.of_runIf os h⟩
  · cases h

/-- A run of the receive side for that device. -/
def runRx64 (allowed : RxSys → RxOp → Prop) [∀ s o, Decidable (allowed s o)] (os : List RxOp) :
    Option RxSys :=
  runNet .rx64 .init (RxSys.step pages) allowed os

/-- One packet and an interrupt: the refill is due, and safe. -/
theorem receive_in_order_one : ∃ net allocs s,
    VirtioNet.new 0 .rx64 (fun _ => .zero) pages = .ok (some (net, allocs)) ∧
    Reach (RxSys.step pages) RxSys.SafeRefills (.init net allocs) s ∧
    s.allocs = 64 ∧ s.delivered.length = 1 ∧ s.delivered.length ≤ s.done.length := by
  have hrun : (runRx64 RxSys.SafeRefills [.take, .complete 60, .interrupt true]).map
      (fun s => (s.allocs, s.delivered.length)) = some (64, 1) := by decide +kernel
  obtain ⟨s, hs, hlen⟩ := Option.map_eq_some_iff.1 hrun
  obtain ⟨h1, h2⟩ := Prod.mk.inj hlen
  obtain ⟨net, allocs, hnew, hreach⟩ := reach_runNet hs
  exact ⟨net, allocs, s, hnew, hreach, h1, h2, (receive_in_order (k := 6) rfl hnew hreach).1⟩

/-- Two packets before the first interrupt. The device wrote the first two pages;
the refill put the sixty-fifth page in the place of the first, and `ethernet-in` got
that one. -/
theorem burst_misdelivery : ∃ net allocs s,
    VirtioNet.new 0 .rx64 (fun _ => .zero) pages = .ok (some (net, allocs)) ∧
    Reach (RxSys.step pages) (fun _ _ => True) (.init net allocs) s ∧
    s.done.map (fun t => (t.pos, t.desc.addr)) = [(0, 4096), (1, 8192)] ∧
    s.delivered.map Buffer.getAddress = [266240, 8192] := by
  have hrun : (runRx64 (fun _ _ => True)
      [.take, .take, .complete 60, .complete 60, .interrupt true]).map
      (fun s => (s.done.map (fun t => (t.pos, t.desc.addr)), s.delivered.map Buffer.getAddress)) =
      some ([(0, 4096), (1, 8192)], [266240, 8192]) := by decide +kernel
  obtain ⟨s, hs, hobs⟩ := Option.map_eq_some_iff.1 hrun
  obtain ⟨h1, h2⟩ := Prod.mk.inj hobs
  obtain ⟨net, allocs, hnew, hreach⟩ := reach_runNet hs
  exact ⟨net, allocs, s, hnew, hreach, h1, h2⟩

end Urchin
