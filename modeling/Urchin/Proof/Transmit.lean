import Urchin.Proof.Refill

/-!
# A full transmit queue

`push` does not look at `used.idx`. In a state where all entries of the transmit
queue are with the device, `xmit` posts one more all the same, and the `buffers` slot
it fills is the one that keeps the oldest buffer alive (`xmit_never_refused`). The
invariant `TxOK` says which buffer each slot keeps; nothing clears a slot, since the
transmit queue is never popped.
-/

namespace Urchin

open Exec Circ

namespace TxSys

/-- The transmit queue's size. -/
def N (s : TxSys) : ℕ := s.net.txq.size.toNat

/-- All entries are available and not used. -/
def Full (s : TxSys) : Prop := s.net.txq.avail.idx - s.net.txq.used.idx = s.net.txq.size

instance (s : TxSys) : Decidable s.Full := inferInstanceAs (Decidable (_ = _))

/-- The device has returned entries in the order it took them. -/
def InOrder (s : TxSys) : Prop := s.done.map Taken.pos = List.range s.done.length

end TxSys

/-- The last `N` buffers sent are in the slots of their positions, and the next one
goes to the slot of the oldest of them. -/
structure Kept (N : ℕ) (q : Virtqueue) (sent : List Buffer) : Prop where
  free : q.freeHead.toNat = sent.length % N
  slots : ∀ p b, sent[p]? = some b → sent.length ≤ p + N → q.buffers (p % N) = some b

/-- The invariant of the transmit side. -/
structure TxOK (s : TxSys) : Prop where
  head : s.net.txq.HeadOK
  avail : s.net.txq.avail.idx = UInt16.ofNat s.sent.length
  used : s.net.txq.used.idx = UInt16.ofNat s.done.length
  taken : s.dev.taken ≤ s.sent.length
  count : s.done.length + s.dev.inflight.length = s.dev.taken
  kept : ∀ k, s.N = 2 ^ k → Kept s.N s.net.txq s.sent

/-- **A push keeps the last `N` buffers**: it writes the slot of the one that falls out
of the window. -/
theorem Kept.push {q : Virtqueue} {sent : List Buffer} {k : ℕ} (hk : q.size.toNat = 2 ^ k)
    (h : Kept q.size.toNat q sent) (b : Buffer) (g : Bool) :
    Kept q.size.toNat (q.stores b g) (sent ++ [b]) := by
  have hpos := (word_pow_le hk).1
  rw [q.stores_eq]
  refine ⟨?_, ?_⟩
  · have hfree : q.freeHead = UInt16.ofNat (sent.length % q.size.toNat) := by
      rw [← h.free, UInt16.ofNat_toNat]
    show ((q.freeHead + 1) &&& (q.size - 1)).toNat = _
    rw [hfree, word_succ, word_slot hk, List.length_append, List.length_singleton, Nat.mod_add_mod]
  · intro p b' hp hlap
    show Function.update q.buffers q.freeHead.toNat (some b) (p % q.size.toNat) = some b'
    rw [List.length_append, List.length_singleton] at hlap
    have hlt : p < sent.length + 1 := by
      have := (List.getElem?_eq_some_iff.1 hp).1
      rwa [List.length_append, List.length_singleton] at this
    -- an older position in the window, or the one just pushed
    rcases Nat.lt_succ_iff_lt_or_eq.1 hlt with hold | hnew
    · have hne : p % q.size.toNat ≠ q.freeHead.toNat := by
        rw [h.free]
        intro he
        exact absurd (slot_inj p le_rfl (by omega) hold.le (by omega) he) hold.ne
      rw [Function.update_of_ne hne]
      rw [List.getElem?_append_left hold] at hp
      exact h.slots p b' hp (by omega)
    · subst hnew
      rw [← h.free, Function.update_self]
      simpa using hp

namespace TxOK

variable {s s' : TxSys}

theorem init {id : ℕ} {dev : DeviceConfig} {mem : ℕ → QueueMem} {heap : ℕ → Block} {net : VirtioNet}
    {allocs : ℕ} (hnew : VirtioNet.new id dev mem heap = .ok (some (net, allocs))) : TxOK (.init net) := by
  obtain ⟨g, -, -, -, hq⟩ := VirtioNet.new_queues hnew
  obtain ⟨-, ha, hu, hf, -⟩ := Virtqueue.new_fields hq
  refine ⟨.inl hf, ha, hu, le_rfl, rfl, ?_⟩
  intro k hk
  refine ⟨?_, ?_⟩
  · show net.txq.freeHead.toNat = 0 % _
    rw [hf, Nat.zero_mod]
    rfl
  · intro p b hp
    cases hp

/-- `xmit` on a queue that has entries. -/
theorem xmit_eq (h : TxOK s) (hpos : 0 < s.N) (b : Buffer) :
    s.net.xmit b = .ok (.ok (), { s.net with txq := s.net.txq.stores b true }) := by
  unfold VirtioNet.xmit
  rw [(Virtqueue.push_ok h.head hpos b true).1]
  rfl

/-- `xmit` on a queue without entries. -/
theorem xmit_empty (hzero : s.N = 0) (b : Buffer) : s.net.xmit b = .error .bounds := by
  have hsize : s.net.txq.size.toNat = 0 := hzero
  unfold VirtioNet.xmit Virtqueue.push
  rw [if_neg (by omega)]
  rfl

/-- The stores of a push. -/
theorem posted (h : TxOK s) (hpos : 0 < s.N) (b : Buffer) :
    TxOK { s with net := { s.net with txq := s.net.txq.stores b true }, sent := s.sent ++ [b] } := by
  obtain ⟨-, hok⟩ := Virtqueue.push_ok h.head hpos b true
  have hstores := s.net.txq.stores_eq b true
  refine ⟨hok, ?_, ?_, ?_, h.count, ?_⟩
  · simp only [hstores, h.avail, word_succ, List.length_append, List.length_singleton]
  · simp only [hstores]
    exact h.used
  · simp only [List.length_append, List.length_singleton]
    have := h.taken
    omega
  · intro k hk
    have hsize : (s.net.txq.stores b true).size = s.net.txq.size := by rw [hstores]
    simp only [TxSys.N, hsize] at hk ⊢
    exact (h.kept k hk).push hk b true

/-- The device takes an entry only if there is one it has not taken. -/
theorem take (h : TxOK s) : TxOK { s with dev := s.dev.take s.net.txq } := by
  unfold Device.take
  split
  · exact h
  · rename_i hne
    rw [h.avail] at hne
    have hlt : s.dev.taken < s.sent.length := by
      refine lt_of_le_of_ne h.taken ?_
      intro heq
      exact hne (by rw [heq])
    refine ⟨h.head, h.avail, h.used, hlt, ?_, h.kept⟩
    have := h.count
    simp only [List.length_append, List.length_singleton]
    omega

theorem complete (h : TxOK s) (i : ℕ) (len : UInt32) : TxOK (s.complete i len) := by
  unfold TxSys.complete
  split
  · rename_i t ht
    have hi : i < s.dev.inflight.length := (List.getElem?_eq_some_iff.1 ht).1
    refine ⟨h.head, h.avail, ?_, h.taken, ?_, fun k hk => ⟨(h.kept k hk).free, (h.kept k hk).slots⟩⟩
    · simp only [Virtqueue.complete, h.used, word_succ, List.length_append, List.length_singleton]
    · have := h.count
      simp only [List.length_append, List.length_singleton, List.length_eraseIdx_of_lt hi]
      omega
  · exact h

theorem step (h : TxOK s) {o : TxOp} (he : s.step o = .ok s') : TxOK s' := by
  cases o with
  | xmit b =>
    rcases Nat.eq_zero_or_pos s.N with hzero | hpos
    · simp only [TxSys.step, xmit_empty hzero] at he
      cases he
    · simp only [TxSys.step, h.xmit_eq hpos] at he
      obtain rfl := Except.ok.inj he
      exact h.posted hpos b
  | take =>
    obtain rfl := Except.ok.inj he
    exact h.take
  | complete i len =>
    obtain rfl := Except.ok.inj he
    exact h.complete i len

theorem reach {net : VirtioNet} (h0 : TxOK (.init net)) (h : Reach TxSys.step (fun _ _ => True) (.init net) s) :
    TxOK s :=
  h.inv h0 fun _ _ _ hs _ he => hs.step he

/-- In a full queue a whole lap of entries is not returned. The indices alone say so only
modulo `2 ^ 16`. -/
theorem oldest (h : TxOK s) (hfull : s.Full) : s.done.length + s.N ≤ s.sent.length := by
  have hle : s.done.length ≤ s.sent.length := by
    have := h.taken
    have := h.count
    omega
  -- a larger difference would be one by whole turns of the counter
  have hmod : (UInt16.ofNat s.sent.length - UInt16.ofNat s.done.length).toNat = s.N := by
    rw [← h.avail, ← h.used, show s.net.txq.avail.idx - s.net.txq.used.idx = s.net.txq.size from hfull]
    rfl
  rw [UInt16.toNat_sub, word_toNat, word_toNat] at hmod
  omega

end TxOK

/-- **A full transmit queue is never refused.** In every state of every run of the
transmit side in which all entries of its queue are available and not used, whatever
the sizes, and in whatever order the device returns entries:
* neither `push` nor `xmit` returns an error;
* if the queue has entries, `xmit` accepts the buffer and moves `avail.idx` on;
* if their number is a power of two, the `buffers` slot that the push fills kept a
  buffer sent a lap ago, and if the device returns entries in order it has not
  returned that one. -/
theorem TxSys.xmit_never_refused {id : ℕ} {dev : DeviceConfig} {mem : ℕ → QueueMem} {heap : ℕ → Block}
    {net : VirtioNet} {allocs : ℕ} (hnew : VirtioNet.new id dev mem heap = .ok (some (net, allocs)))
    {s : TxSys} (h : Reach TxSys.step (fun _ _ => True) (.init net) s) (hfull : s.Full) (b : Buffer) :
    (∀ e q', s.net.txq.push b true ≠ .ok (.error e, q')) ∧
    (∀ e net', s.net.xmit b ≠ .ok (.error e, net')) ∧
    (0 < s.N → ∃ net', s.net.xmit b = .ok (.ok (), net') ∧
      net'.txq.avail.idx = s.net.txq.avail.idx + 1 ∧
      net'.txq.buffers s.net.txq.freeHead.toNat = some b) ∧
    (∀ k, s.N = 2 ^ k → ∃ p old, s.sent[p]? = some old ∧ p + s.N = s.sent.length ∧
      s.net.txq.buffers s.net.txq.freeHead.toNat = some old ∧
      (s.InOrder → p ∉ s.done.map Taken.pos)) := by
  have hok : TxOK s := TxOK.reach (TxOK.init hnew) h
  have hcases : (∃ p, s.net.xmit b = .error p ∧ s.net.txq.push b true = .error p) ∨ 0 < s.N := by
    rcases Nat.eq_zero_or_pos s.N with hzero | hpos
    · have hsize : s.net.txq.size.toNat = 0 := hzero
      exact .inl ⟨.bounds, TxOK.xmit_empty hzero b, if_neg (by omega)⟩
    · exact .inr hpos
  refine ⟨?_, ?_, ?_, ?_⟩
  · intro e q' he
    rcases hcases with ⟨p, -, hp⟩ | hpos
    · rw [hp] at he
      cases he
    · rw [(Virtqueue.push_ok hok.head hpos b true).1] at he
      cases he
  · intro e net' he
    rcases hcases with ⟨p, hp, -⟩ | hpos
    · rw [hp] at he
      cases he
    · rw [hok.xmit_eq hpos] at he
      cases he
  · intro hpos
    refine ⟨_, hok.xmit_eq hpos b, ?_, ?_⟩
    · rw [s.net.txq.stores_eq]
    · rw [s.net.txq.stores_eq]
      exact Function.update_self _ _ _
  · intro k hk
    have hkept := hok.kept k hk
    have hpos : 0 < s.N := by rw [hk]; positivity
    have hold := hok.oldest hfull
    have hlt : s.sent.length - s.N < s.sent.length := by omega
    refine ⟨s.sent.length - s.N, s.sent[s.sent.length - s.N], List.getElem?_eq_getElem hlt, by omega, ?_, ?_⟩
    · -- the next position and the one a lap before it share a slot
      have hslot : s.net.txq.freeHead.toNat = (s.sent.length - s.N) % s.N := by
        rw [hkept.free, Nat.mod_eq_sub_mod (by omega : s.sent.length ≥ s.N)]
      rw [hslot]
      exact hkept.slots _ _ (List.getElem?_eq_getElem hlt) (by omega)
    · intro hord hmem
      rw [show s.done.map Taken.pos = _ from hord, List.mem_range] at hmem
      omega

/-- A run of the transmit side for a device with a transmit queue of two entries. -/
def TxSys.run2 (os : List TxOp) : Option TxSys :=
  runNet .rx64 (fun net _ => .init net) TxSys.step (fun _ _ => True) os

/-- Two buffers that the device has not looked at yet fill the queue. -/
theorem TxSys.run2_full : ∃ net allocs s,
    VirtioNet.new 0 .rx64 (fun _ => .zero) pages = .ok (some (net, allocs)) ∧
    Reach TxSys.step (fun _ _ => True) (.init net) s ∧ s.Full ∧ s.N = 2 ∧ s.done = [] := by
  have hrun : (run2 [.xmit (.page 4096), .xmit (.page 8192)]).map
      (fun s => (decide s.Full, s.N, s.done.length)) = some (true, 2, 0) := by decide +kernel
  obtain ⟨s, hs, hobs⟩ := Option.map_eq_some_iff.1 hrun
  obtain ⟨hfull, hobs⟩ := Prod.mk.inj hobs
  obtain ⟨hN, hdone⟩ := Prod.mk.inj hobs
  obtain ⟨net, allocs, hnew, hreach⟩ := reach_runNet hs
  exact ⟨net, allocs, s, hnew, hreach, of_decide_eq_true hfull, hN, List.length_eq_zero_iff.1 hdone⟩

/-- A third buffer is accepted, into the slot of one that the device has not returned. -/
theorem TxSys.xmit_never_refused_third : ∃ s : TxSys, s.Full ∧
    (∃ net', s.net.xmit (.page 12288) = .ok (.ok (), net')) ∧
    ∃ p old, s.sent[p]? = some old ∧ s.net.txq.buffers s.net.txq.freeHead.toNat = some old ∧
      p ∉ s.done.map Taken.pos := by
  obtain ⟨net, allocs, s, hnew, hreach, hfull, hN, hdone⟩ := run2_full
  obtain ⟨-, -, hok, hdrop⟩ := xmit_never_refused hnew hreach hfull (.page 12288)
  obtain ⟨net', hx, -⟩ := hok (by omega)
  obtain ⟨p, old, hp, -, hslot, hheld⟩ := hdrop 1 hN
  have hord : s.InOrder := by
    unfold InOrder
    rw [hdone]
    rfl
  exact ⟨s, hfull, ⟨net', hx⟩, p, old, hp, hslot, hheld hord⟩

/-- It is not the case that a full queue refuses a buffer. -/
theorem TxSys.third_buffer_posted : ¬ ∀ (id : ℕ) (dev : DeviceConfig) (mem : ℕ → QueueMem)
    (heap : ℕ → Block) (net : VirtioNet) (allocs : ℕ),
    VirtioNet.new id dev mem heap = .ok (some (net, allocs)) →
    ∀ s, Reach TxSys.step (fun _ _ => True) (.init net) s → s.Full → ∀ b,
      (∃ e, s.net.txq.push b true = .ok (.error e, s.net.txq)) ∧
      s.net.xmit b = .ok (.error .transmitError, s.net) := by
  intro hall
  obtain ⟨net, allocs, s, hnew, hreach, hfull, hN, -⟩ := run2_full
  obtain ⟨⟨e, he⟩, -⟩ := hall _ _ _ _ net allocs hnew s hreach hfull (.page 12288)
  have hok : TxOK s := TxOK.reach (TxOK.init hnew) hreach
  have hpush := (Virtqueue.push_ok hok.head (show 0 < s.N by omega) (.page 12288) true).1
  rw [hpush] at he
  cases he

end Urchin
