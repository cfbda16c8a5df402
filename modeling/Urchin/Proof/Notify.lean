import Urchin.Proof.Receive

/-!
# Interrupts and the features in force

The driver accepts `VIRTIO_RING_F_EVENT_IDX` if it is offered, and then never writes
the `used_event` field that the feature is about: it keeps what the memory of the
queue happened to hold (`Virtqueue.Quiet`). So a driver that has drained its receive
queue gets the next interrupt exactly if the feature was not offered, or that word
happens to be the index the device has reached (`obliged_iff`). With cleared memory
it misses the interrupt after the first packet (`second_packet_silent`).
-/

namespace Urchin

open Exec

/-- What the notification rule reads, beside `used.idx`. -/
def Virtqueue.Quiet (q q' : Virtqueue) : Prop :=
  q'.size = q.size ∧ q'.avail.flags = q.avail.flags ∧ q'.usedEvent = q.usedEvent

namespace Virtqueue.Quiet

variable {q q' q'' : Virtqueue}

theorem refl (q : Virtqueue) : Quiet q q := ⟨rfl, rfl, rfl⟩

theorem trans (h : Quiet q q') (h' : Quiet q' q'') : Quiet q q'' :=
  ⟨h'.1.trans h.1, h'.2.1.trans h.2.1, h'.2.2.trans h.2.2⟩

/-- `push` stores into a slot of the avail ring, not into the word after it. -/
theorem push {b : Buffer} {g : Bool} {r : Except String Unit} (h : q.push b g = .ok (r, q')) : Quiet q q' := by
  unfold Virtqueue.push at h
  split at h
  rotate_left
  · cases h
  rename_i hlt
  obtain ⟨-, rfl⟩ := Prod.mk.inj (Except.ok.inj h)
  rw [q.stores_eq]
  refine ⟨rfl, rfl, ?_⟩
  show Function.update q.availRing (q.slot q.avail.idx) _ q.size.toNat = q.availRing q.size.toNat
  rw [Function.update_of_ne (by omega)]

theorem pop {out : List Buffer} (h : q.pop = .ok (out, q')) : Quiet q q' := by
  obtain ⟨bufs, last, rfl⟩ := Virtqueue.pop_frame h
  exact ⟨rfl, rfl, rfl⟩

theorem complete (q : Virtqueue) (head : UInt16) (len : UInt32) : Quiet q (q.complete head len) :=
  ⟨rfl, rfl, rfl⟩

theorem fillLoop {heap : ℕ → Block} {size : UInt64} (count : ℕ) :
    ∀ {q : Virtqueue} {n n' : ℕ}, VirtioNet.fillLoop heap size count q n = .ok (q', n') → Quiet q q' := by
  induction count with
  | zero =>
    intro q n n' h
    obtain ⟨rfl, -⟩ := Prod.mk.inj (Except.ok.inj h)
    exact .refl _
  | succ count ih =>
    intro q n n' h
    unfold VirtioNet.fillLoop at h
    split at h
    · split at h
      · rename_i hp
        exact (push hp).trans (ih h)
      · rename_i hp
        obtain ⟨rfl, -⟩ := Prod.mk.inj (Except.ok.inj h)
        exact push hp
      · cases h
    · exact ih h

theorem fillRxQueue {heap : ℕ → Block} {net net' : VirtioNet} {n n' : ℕ}
    (h : net.fillRxQueue heap n = .ok (net', n')) : Quiet net.rxq net'.rxq := by
  unfold VirtioNet.fillRxQueue at h
  simp only at h
  split at h
  · obtain ⟨⟨rxq, m⟩, hfill, hnet⟩ := bind_eq_ok.1 h
    obtain ⟨rfl, -⟩ := Prod.mk.inj (Except.ok.inj hnet)
    exact fillLoop _ hfill
  · obtain ⟨rfl, -⟩ := Prod.mk.inj (Except.ok.inj h)
    exact .refl _

theorem interruptHandler {heap : ℕ → Block} {irqed : Bool} {net net' : VirtioNet} {n n' : ℕ}
    {out : List Buffer} (h : net.interruptHandler heap irqed n = .ok (out, net', n')) :
    Quiet net.rxq net'.rxq := by
  unfold VirtioNet.interruptHandler at h
  split at h
  · obtain ⟨⟨net₁, n₁⟩, hfill, h⟩ := bind_eq_ok.1 h
    obtain ⟨⟨rxdata, rxq⟩, hpop, h⟩ := bind_eq_ok.1 h
    obtain ⟨-, h⟩ := Prod.mk.inj (Except.ok.inj h)
    obtain ⟨rfl, -⟩ := Prod.mk.inj h
    exact (fillRxQueue hfill).trans (pop hpop)
  · obtain ⟨-, h⟩ := Prod.mk.inj (Except.ok.inj h)
    obtain ⟨rfl, -⟩ := Prod.mk.inj h
    exact .refl _

/-- **No step of driver or device** touches what the rule reads, but for `used.idx`. -/
theorem stepAny {heap : ℕ → Block} {s s' : RxSys} {o : RxAnyOp} (h : s.stepAny heap o = .ok s') :
    Quiet s.net.rxq s'.net.rxq := by
  cases o with
  | take =>
    obtain rfl := Except.ok.inj h
    exact .refl _
  | complete i len =>
    obtain rfl := Except.ok.inj h
    unfold RxSys.completeAt
    split
    · exact complete _ _ _
    · exact .refl _
  | interrupt irqed =>
    obtain ⟨⟨out, net', n'⟩, hi, rfl⟩ := map_eq_ok.1 h
    exact interruptHandler hi

/-- A driver's receive queue wants interrupts, and its `used_event` is the word that
was there when the queue was laid over its memory. -/
theorem new {id : ℕ} {dev : DeviceConfig} {mem : ℕ → QueueMem} {heap : ℕ → Block} {net : VirtioNet}
    {allocs : ℕ} (h : VirtioNet.new id dev mem heap = .ok (some (net, allocs))) :
    net.rxq.avail.flags = 0 ∧ net.rxq.usedEvent = (mem 0).availRing (dev.queueSize 0).toNat := by
  obtain ⟨g, q, hq, hfill, -⟩ := VirtioNet.new_queues h
  obtain ⟨-, hflags, hevent⟩ := fillLoop _ hfill
  rw [hflags, hevent]
  unfold Virtqueue.new at hq
  obtain ⟨layout, -, rfl⟩ := Option.map_eq_some_iff.1 hq
  exact ⟨rfl, rfl⟩

end Virtqueue.Quiet

/-- Moving on by one passes an event exactly if it is the place moved from. -/
theorem vringNeedEvent_succ (event old : UInt16) : vringNeedEvent event (old + 1) old ↔ event = old := by
  unfold vringNeedEvent
  rw [UInt16.lt_iff_toNat_lt, ← UInt16.toNat_inj]
  simp only [UInt16.toNat_sub, UInt16.toNat_add, UInt16.reduceToNat]
  have h1 := event.toNat_lt
  have h2 := old.toNat_lt
  omega

/-- The driver asks for `EVENT_IDX`, so it accepts it exactly if it is offered. -/
theorem eventIdx_accepted (dev : DeviceConfig) :
    VirtioNet.subsetFeatures dev &&& EVENT_IDX = dev.features &&& EVENT_IDX := by
  unfold VirtioNet.subsetFeatures
  rw [UInt64.and_assoc]
  rfl

namespace RxSys

/-- `interrupt_handler` has taken everything the device returned. -/
def Drained (s : RxSys) : Prop := s.net.rxq.lastUsedIdx = s.net.rxq.used.idx

instance (s : RxSys) : Decidable s.Drained := inferInstanceAs (Decidable (_ = _))

/-- **When a drained driver gets its next interrupt.** In every state of every run of
the receive side in which the driver has drained its queue, whatever the device offers
and in whatever order it returns entries, the rule for the accepted features obliges
it to interrupt on its next completion exactly if it does not offer `EVENT_IDX`, or
the word that the queue's memory held after its avail ring is the index it has
reached. -/
theorem obliged_iff {id : ℕ} {dev : DeviceConfig} {mem : ℕ → QueueMem} {heap : ℕ → Block}
    {net : VirtioNet} {allocs : ℕ} (hnew : VirtioNet.new id dev mem heap = .ok (some (net, allocs)))
    {s : RxSys} (h : Reach (RxSys.stepAny heap) (fun _ _ => True) (.init net allocs) s)
    (hd : s.Drained) :
    s.net.rxq.Obliged (VirtioNet.subsetFeatures dev) ↔
      dev.features &&& EVENT_IDX = 0 ∨
        (mem 0).availRing (dev.queueSize 0).toNat = s.net.rxq.lastUsedIdx := by
  -- the whole run leaves the flags and the word after the avail ring alone
  have hquiet : Virtqueue.Quiet net.rxq s.net.rxq :=
    h.inv (P := fun s => Virtqueue.Quiet net.rxq s.net.rxq) (.refl _)
      fun _ _ _ hs _ he => hs.trans (.stepAny he)
  obtain ⟨-, hflags, hevent⟩ := hquiet
  obtain ⟨hflags₀, hevent₀⟩ := Virtqueue.Quiet.new hnew
  unfold Virtqueue.Obliged
  rw [eventIdx_accepted, vringNeedEvent_succ, hflags, hflags₀, hevent, hevent₀, hd]
  by_cases hoff : dev.features &&& EVENT_IDX = 0
  · simp [hoff]
  · simp [hoff]

/-- A run of the receive side for the device `dev`. -/
def runAny (dev : DeviceConfig) (os : List RxAnyOp) : Option RxSys :=
  runNet dev .init (RxSys.stepAny pages) (fun _ _ => True) os

/-- A device that offers nothing: after a packet the driver gets the next interrupt. -/
theorem obliged_iff_plain : ∃ net allocs s,
    VirtioNet.new 0 .rx64 (fun _ => .zero) pages = .ok (some (net, allocs)) ∧
    Reach (RxSys.stepAny pages) (fun _ _ => True) (.init net allocs) s ∧ s.Drained ∧
    s.delivered.length = 1 ∧ s.net.rxq.Obliged (VirtioNet.subsetFeatures .rx64) := by
  have hrun : (runAny .rx64 [.take, .complete 0 60, .interrupt true]).map
      (fun s => (decide s.Drained, s.delivered.length)) = some (true, 1) := by decide +kernel
  obtain ⟨s, hs, hobs⟩ := Option.map_eq_some_iff.1 hrun
  obtain ⟨hd, hlen⟩ := Prod.mk.inj hobs
  obtain ⟨net, allocs, hnew, hreach⟩ := reach_runNet hs
  have hd : s.Drained := of_decide_eq_true hd
  exact ⟨net, allocs, s, hnew, hreach, hd, hlen, (obliged_iff hnew hreach hd).2 (.inl rfl)⟩

/-- A device that offers `EVENT_IDX`: the driver has taken the first packet, and the
device may return the second one without a word. -/
theorem second_packet_silent : ¬ ∀ (id : ℕ) (dev : DeviceConfig) (mem : ℕ → QueueMem) (heap : ℕ → Block)
    (net : VirtioNet) (allocs : ℕ), VirtioNet.new id dev mem heap = .ok (some (net, allocs)) →
    ∀ s, Reach (RxSys.stepAny heap) (fun _ _ => True) (.init net allocs) s → s.Drained →
      s.net.rxq.Obliged (VirtioNet.subsetFeatures dev) := by
  intro hall
  have hrun : (runAny { DeviceConfig.rx64 with features := EVENT_IDX }
      [.take, .complete 0 60, .interrupt true]).map (fun s => (decide s.Drained,
        decide (s.net.rxq.Obliged (VirtioNet.subsetFeatures { DeviceConfig.rx64 with features := EVENT_IDX })))) =
      some (true, false) := by decide +kernel
  obtain ⟨s, hs, hobs⟩ := Option.map_eq_some_iff.1 hrun
  obtain ⟨hd, hno⟩ := Prod.mk.inj hobs
  obtain ⟨net, allocs, hnew, hreach⟩ := reach_runNet hs
  exact of_decide_eq_false hno (hall _ _ _ _ net allocs hnew s hreach (of_decide_eq_true hd))

end RxSys

end Urchin
