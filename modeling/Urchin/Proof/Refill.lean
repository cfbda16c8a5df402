import Urchin.Proof.Receive

/-!
# Counting free entries

A queue of `N` entries whose indices are `outstanding` apart has `N - outstanding`
free ones. `get_avail_free_size` compares the two free-running counters as numbers:
once `avail.idx` has wrapped and `used.idx` has not, it returns the distance to the
wrap-around instead. `fill_rx_queue` takes one off what it returns, so it also goes
wrong on a full queue, where the count is right and zero. Everywhere else both do what
they should (`free_size_iff`).
-/

namespace Urchin

open Exec

namespace Virtqueue

/-- The entries that are available and not used, by the two indices. -/
def outstanding (q : Virtqueue) : ℕ := (q.avail.idx - q.used.idx).toNat

/-- The descriptor the next push selects is in the table, if there is a table. -/
def HeadOK (q : Virtqueue) : Prop := q.freeHead = 0 ∨ q.freeHead < q.size

theorem masked_lt {size : UInt16} (hpos : 0 < size.toNat) (a : UInt16) :
    (a &&& (size - 1)).toNat < size.toNat := by
  have hsub : (size - 1).toNat = size.toNat - 1 := by
    rw [UInt16.toNat_sub_of_le _ _ (by rw [UInt16.le_iff_toNat_le]; exact hpos)]
    rfl
  have hle : (a &&& (size - 1)).toNat ≤ size.toNat - 1 := by
    rw [UInt16.toNat_and, hsub]
    exact Nat.and_le_right
  omega

variable {q : Virtqueue}

theorem HeadOK.lt (h : q.HeadOK) (hpos : 0 < q.size.toNat) : q.freeHead.toNat < q.size.toNat := by
  rcases h with h | h
  · rw [h]; exact hpos
  · exact UInt16.lt_iff_toNat_lt.1 h

/-- **`push` cannot fail**, on a queue that has entries at all: not even when it is
full. -/
theorem push_ok (h : q.HeadOK) (hpos : 0 < q.size.toNat) (b : Buffer) (g : Bool) :
    q.push b g = .ok (.ok (), q.stores b g) ∧ (q.stores b g).HeadOK := by
  refine ⟨q.push_eq b g (masked_lt hpos _) (h.lt hpos), .inr ?_⟩
  rw [q.stores_eq, UInt16.lt_iff_toNat_lt]
  exact masked_lt hpos _

/-- The counters compared as numbers. -/
theorem getAvailFreeSize_toNat (hout : q.outstanding ≤ q.size.toNat) :
    q.getAvailFreeSize.toNat =
      if q.used.idx ≤ q.avail.idx then q.size.toNat - q.outstanding else 65536 - q.outstanding := by
  unfold getAvailFreeSize getSize
  split
  · rw [UInt16.toNat_sub_of_le _ _ (by rw [UInt16.le_iff_toNat_le]; exact hout)]
    rfl
  · rename_i hlt
    rw [UInt16.le_iff_toNat_le] at hlt
    unfold outstanding
    rw [UInt16.toNat_sub_of_le _ _ (by rw [UInt16.le_iff_toNat_le]; omega), UInt16.toNat_sub]
    have := q.used.idx.toNat_lt
    omega

/-- It counts the free entries exactly as long as `avail.idx` is not behind. -/
theorem getAvailFreeSize_iff (hout : q.outstanding ≤ q.size.toNat) :
    q.getAvailFreeSize.toNat = q.size.toNat - q.outstanding ↔ q.used.idx ≤ q.avail.idx := by
  rw [getAvailFreeSize_toNat hout]
  have := q.size.toNat_lt
  split
  · rename_i hle
    simp [hle]
  · rename_i hlt
    simp only [hlt, iff_false]
    omega

end Virtqueue

/-- **The fill loop posts as many buffers as it has rounds**, room or no room. -/
theorem fillLoop_posts (heap : ℕ → Block) (m t u : Bool) (count : ℕ) :
    ∀ (q : Virtqueue) (n : ℕ), q.HeadOK → 0 < q.size.toNat →
      ∃ q', VirtioNet.fillLoop heap (VirtioNet.bufferSize m t u) count q n = .ok (q', n + count) ∧
        q'.avail.idx = q.avail.idx + UInt16.ofNat count := by
  induction count with
  | zero =>
    intro q n _ _
    exact ⟨q, rfl, (UInt16.add_zero _).symm⟩
  | succ count ih =>
    intro q n h hpos
    set b := rxBuffer heap (VirtioNet.bufferSize m t u) n with hb
    obtain ⟨hpush, hok⟩ := Virtqueue.push_ok h hpos b false
    have hstores := q.stores_eq b false
    obtain ⟨q', hq', ha⟩ := ih (q.stores b false) (n + 1) hok (by rw [hstores]; exact hpos)
    refine ⟨q', ?_, ?_⟩
    · simp only [VirtioNet.fillLoop, new_rxBuffer, ← hb, hpush, hq']
      rw [show n + 1 + count = n + (count + 1) by omega]
    · rw [ha, hstores, UInt16.ofNat_add, UInt16.add_comm (UInt16.ofNat count), ← UInt16.add_assoc]
      rfl

namespace VirtioNet

variable {heap : ℕ → Block} {net : VirtioNet} {allocs : ℕ}

/-- The rounds of the fill loop that `fill_rx_queue` decides on. -/
def refillRounds (net : VirtioNet) : ℕ :=
  if net.rxq.getAvailFreeSize - 1 > 32 then (net.rxq.getAvailFreeSize - 1).toNat else 0

/-- **What a refill posts**, for a queue that has entries. -/
theorem fillRxQueue_posts (heap : ℕ → Block) (allocs : ℕ) (h : net.rxq.HeadOK) (hpos : 0 < net.rxq.size.toNat) :
    ∃ net', net.fillRxQueue heap allocs = .ok (net', allocs + net.refillRounds) ∧
      net'.rxq.avail.idx = net.rxq.avail.idx + UInt16.ofNat net.refillRounds := by
  unfold fillRxQueue refillRounds
  simp only
  split
  · obtain ⟨q', hq', ha⟩ := fillLoop_posts heap net.flagMergeableRxbufs net.flagGuestTso4 net.flagGuestUfo
      (net.rxq.getAvailFreeSize - 1).toNat net.rxq allocs h hpos
    refine ⟨{ net with rxq := q' }, ?_, ha⟩
    unfold rxBufferSize
    rw [hq']
    rfl
  · exact ⟨net, rfl, (UInt16.add_zero _).symm⟩

/-- One is taken off the count: of a count of zero that leaves the largest number a
16-bit word can hold. -/
theorem refillRounds_le_iff :
    net.refillRounds ≤ net.rxq.getAvailFreeSize.toNat ↔ net.rxq.getAvailFreeSize ≠ 0 := by
  unfold refillRounds
  by_cases h0 : net.rxq.getAvailFreeSize = 0
  · rw [h0]
    decide
  · have hpos : 1 ≤ net.rxq.getAvailFreeSize.toNat := by
      rw [Nat.one_le_iff_ne_zero, Ne, ← UInt16.toNat_zero, UInt16.toNat_inj]
      exact h0
    have hsub : (net.rxq.getAvailFreeSize - 1).toNat = net.rxq.getAvailFreeSize.toNat - 1 := by
      rw [UInt16.toNat_sub_of_le _ _ (by rw [UInt16.le_iff_toNat_le]; exact hpos)]
      rfl
    simp only [ne_eq, h0, not_false_eq_true, iff_true]
    split
    · omega
    · omega

/-- The count is the number of free entries, and a refill posts no more than that. -/
structure FreeCounted (heap : ℕ → Block) (net : VirtioNet) (allocs : ℕ) : Prop where
  size : net.rxq.getAvailFreeSize.toNat = net.rxq.size.toNat - net.rxq.outstanding
  posts : ∀ net' n, net.fillRxQueue heap allocs = .ok (net', n) →
    n ≤ allocs + (net.rxq.size.toNat - net.rxq.outstanding)

/-- A queue without entries: the first push of a refill panics. -/
theorem fillRxQueue_empty (heap : ℕ → Block) (allocs : ℕ) (hsize : net.rxq.size.toNat = 0)
    (hidx : net.rxq.used.idx = net.rxq.avail.idx) : net.fillRxQueue heap allocs = .error .bounds := by
  have hfree : net.rxq.getAvailFreeSize = 0 := by
    unfold Virtqueue.getAvailFreeSize Virtqueue.getSize
    rw [hidx, if_pos (UInt16.le_refl _), UInt16.sub_self, UInt16.sub_zero, ← UInt16.toNat_inj, hsize]
    rfl
  have hpush : ∀ b, net.rxq.push b false = .error .bounds := by
    intro b
    unfold Virtqueue.push
    rw [if_neg (by omega)]
  unfold fillRxQueue rxBufferSize
  simp only [hfree]
  rw [if_pos (by decide), show ((0 : UInt16) - 1).toNat = 65534 + 1 from rfl]
  simp only [fillLoop, new_rxBuffer, hpush]
  rfl

/-- **When free entries are counted rightly.** For every queue size and all indices at
most that far apart: a refill of a queue that has entries always returns, with
`avail.idx` moved on by what it posted; and `get_avail_free_size` is the number of
free entries and a refill posts no more than that, exactly if `avail.idx` is not below
`used.idx` as a number and the queue is not full (or has no entries at all). -/
theorem free_size_iff (heap : ℕ → Block) (net : VirtioNet) (allocs : ℕ) (hhead : net.rxq.HeadOK)
    (hout : net.rxq.outstanding ≤ net.rxq.size.toNat) :
    (0 < net.rxq.size.toNat → ∃ net' n, net.fillRxQueue heap allocs = .ok (net', allocs + n) ∧
      net'.rxq.avail.idx = net.rxq.avail.idx + UInt16.ofNat n) ∧
    (net.FreeCounted heap allocs ↔ net.rxq.used.idx ≤ net.rxq.avail.idx ∧
      (net.rxq.outstanding < net.rxq.size.toNat ∨ net.rxq.size.toNat = 0)) := by
  refine ⟨?_, ?_⟩
  · intro hpos
    obtain ⟨net', hfill, ha⟩ := fillRxQueue_posts heap allocs hhead hpos
    exact ⟨net', _, hfill, ha⟩
  have hiff := Virtqueue.getAvailFreeSize_iff hout
  rcases Nat.eq_zero_or_pos net.rxq.size.toNat with hzero | hpos
  · -- the indices are equal, and the refill never gets to post anything
    have hidx : net.rxq.used.idx = net.rxq.avail.idx := by
      have h0 : (net.rxq.avail.idx - net.rxq.used.idx).toNat = 0 := by
        unfold Virtqueue.outstanding at hout
        omega
      rw [UInt16.toNat_sub] at h0
      have := net.rxq.avail.idx.toNat_lt
      have := net.rxq.used.idx.toNat_lt
      rw [← UInt16.toNat_inj]
      omega
    have hle : net.rxq.used.idx ≤ net.rxq.avail.idx := by rw [hidx]; exact UInt16.le_refl _
    refine ⟨fun _ => ⟨hle, .inr hzero⟩, fun _ => ⟨hiff.2 hle, ?_⟩⟩
    intro net' n hn
    rw [fillRxQueue_empty heap allocs hzero hidx] at hn
    cases hn
  · obtain ⟨net₁, hfill, -⟩ := fillRxQueue_posts heap allocs hhead hpos
    have hposts : (∀ net' n, net.fillRxQueue heap allocs = .ok (net', n) →
        n ≤ allocs + (net.rxq.size.toNat - net.rxq.outstanding)) ↔
        net.refillRounds ≤ net.rxq.size.toNat - net.rxq.outstanding := by
      rw [hfill]
      refine ⟨fun h => by have := h _ _ rfl; omega, ?_⟩
      intro h net' n hn
      obtain ⟨-, rfl⟩ := Prod.mk.inj (Except.ok.inj hn)
      omega
    -- with the right count, the refill goes wrong only at zero
    have hfree : ∀ h : net.rxq.getAvailFreeSize.toNat = net.rxq.size.toNat - net.rxq.outstanding,
        (net.refillRounds ≤ net.rxq.size.toNat - net.rxq.outstanding ↔
          net.rxq.outstanding < net.rxq.size.toNat) := by
      intro h
      rw [← h, refillRounds_le_iff, Ne, ← UInt16.toNat_inj, h, UInt16.toNat_zero]
      omega
    refine ⟨fun h => ⟨hiff.1 h.size, .inl ((hfree h.size).1 (hposts.1 h.posts))⟩, ?_⟩
    rintro ⟨hle, hroom⟩
    have hsize := hiff.2 hle
    exact ⟨hsize, hposts.2 ((hfree hsize).2 (by omega))⟩

/-- A driver whose queues have 64 entries, with the receive queue at the given
indices. -/
def at64 (avail used : UInt16) : VirtioNet :=
  let q := (Virtqueue.new 64 false true .zero).get (Virtqueue.new_isSome 64 false true .zero)
  { id := 0, rxq := { q with avail := ⟨0, avail⟩, used := ⟨0, used⟩ }, txq := q, cxq := q
    macaddr := .new fun _ => 0, flagCsum := false, flagGuestCsum := false, flagMac := false
    flagGuestTso4 := false, flagGuestEcn := false, flagGuestUfo := false, flagHostTso4 := false
    flagHostEcn := false, flagMergeableRxbufs := false, flagStatus := false }

/-- A third of the queue posted and nothing returned. -/
theorem free_size_iff_third : (at64 21 0).FreeCounted pages 21 :=
  (free_size_iff pages (at64 21 0) 21 (.inl rfl) (by decide +kernel)).2.2
    ⟨by decide +kernel, .inl (by decide +kernel)⟩

/-- After 65536 buffers have been posted and all but one of them returned: 63 entries
are free, and the count is 65535. -/
theorem wrapped_count : ¬ ∀ (heap : ℕ → Block) (net : VirtioNet) (allocs : ℕ), net.rxq.HeadOK →
    net.rxq.outstanding ≤ net.rxq.size.toNat → net.FreeCounted heap allocs := by
  intro hall
  have hsize := (hall pages (at64 0 65535) 65536 (.inl rfl) (by decide +kernel)).size
  exact absurd hsize (by decide +kernel)

end VirtioNet

end Urchin
