import Urchin.Proof.Transmit

/-!
# What goes on the wire

Nothing takes entries off the transmit queue, so nothing in the driver waits for the
device. `OnWire` says what the device reads all the same, in every run: position `p`
uses ring slot and descriptor `p % N`, and the descriptor is the one of the last buffer
sent with that slot (`lastAt`). So an entry stands for the buffer sent at its own
position, or, if the driver has got more than a ring ahead, for one sent whole laps later
(`transmit_laps`). While the driver stays within a ring of the device (`Room`) the frames
go out in the order of `xmit`, each once (`transmit_in_order`).
-/

namespace Urchin

open Exec Circ

namespace TxSys

/-- The last of `m` positions that uses the slot of position `p`. -/
def lastAt (N m p : ℕ) : ℕ := m - 1 - (m - 1 - p) % N

/-- The entry at the device's place in the avail ring. -/
def nextEntry (s : TxSys) : Taken :=
  let head := s.net.txq.availRing (s.net.txq.slot (UInt16.ofNat s.dev.taken))
  ⟨s.dev.taken, head, s.net.txq.descriptor head.toNat⟩

/-- The steps of a driver that never posts more than a ring of entries that the device
has not taken. -/
def Room (s : TxSys) : TxOp → Prop
  | .xmit _ => s.sent.length < s.dev.taken + s.N
  | .take | .complete _ _ => True

instance (s : TxSys) (o : TxOp) : Decidable (s.Room o) :=
  match o with
  | .xmit _ => inferInstanceAs (Decidable (_ < _))
  | .take | .complete _ _ => inferInstanceAs (Decidable True)

end TxSys

open TxSys

section

variable {N m p : ℕ}

/-- The last position of a slot is in the last lap, at or after `p`, and in `p`'s slot. -/
theorem lastAt_spec (hN : 0 < N) (hp : p < m) :
    p ≤ lastAt N m p ∧ lastAt N m p < m ∧ m ≤ lastAt N m p + N ∧ lastAt N m p % N = p % N := by
  have hlt := Nat.mod_lt (m - 1 - p) hN
  have hle := Nat.mod_le (m - 1 - p) N
  unfold lastAt
  refine ⟨by omega, by omega, by omega, ?_⟩
  -- what is left of the distance is a number of whole laps
  have hd := Nat.mod_add_div (m - 1 - p) N
  rw [show m - 1 - (m - 1 - p) % N = p + N * ((m - 1 - p) / N) by omega, Nat.add_mul_mod_self_left]

/-- It is `p` itself as long as no lap has been completed since. -/
theorem lastAt_self (hN : 0 < N) (hp : p < m) : lastAt N m p = p ↔ m ≤ p + N := by
  obtain ⟨hle, hm, hlap, hmod⟩ := lastAt_spec hN hp
  refine ⟨fun h => by omega, fun hroom => ?_⟩
  exact (slot_inj p le_rfl (by omega) hle (by omega) hmod.symm).symm

end

/-- The invariant of what the device can read: the avail ring names the slots in turn, and
the descriptors of the last lap are those of the buffers sent. Entries the device has taken
were described by the last buffer of their slot at that time. -/
structure OnWire (s : TxSys) : Prop where
  pow : ∃ k, s.N = 2 ^ k
  ring : ∀ i, i < s.N → i < s.sent.length → (s.net.txq.availRing i).toNat = i
  desc : ∀ p b, s.sent[p]? = some b → s.sent.length ≤ p + s.N →
    Describes (s.net.txq.descriptor (p % s.N)) (b, true)
  split : ((s.done ++ s.dev.inflight).map Taken.pos).Perm (List.range s.dev.taken)
  entry : ∀ t ∈ s.done ++ s.dev.inflight, t.head.toNat = t.pos % s.N ∧
    ∃ m ≤ s.sent.length, t.pos < m ∧
      ∃ b, s.sent[lastAt s.N m t.pos]? = some b ∧ Describes t.desc (b, true)

namespace OnWire

variable {s s' : TxSys}

theorem N_pos (h : OnWire s) : 0 < s.N := by
  obtain ⟨k, hk⟩ := h.pow
  rw [hk]
  positivity

theorem slot_eq (h : OnWire s) (a : ℕ) : s.net.txq.slot (UInt16.ofNat a) = a % s.N := by
  obtain ⟨k, hk⟩ := h.pow
  exact word_slot hk a

theorem init {id k : ℕ} {dev : DeviceConfig} {mem : ℕ → QueueMem} {heap : ℕ → Block} {net : VirtioNet}
    {allocs : ℕ} (hk : (dev.queueSize 1).toNat = 2 ^ k)
    (hnew : VirtioNet.new id dev mem heap = .ok (some (net, allocs))) : OnWire (.init net) := by
  obtain ⟨g, -, -, -, hq⟩ := VirtioNet.new_queues hnew
  obtain ⟨hsize, -⟩ := Virtqueue.new_fields hq
  refine ⟨⟨k, ?_⟩, ?_, ?_, .refl _, ?_⟩
  · show net.txq.size.toNat = _
    rw [hsize, hk]
  · intro i _ hi
    cases hi
  · intro p b hp
    cases hp
  · intro t ht
    cases ht

/-- A buffer that is sent takes the next slot of the ring, and only the slot's last
position changes. -/
theorem posted (h : OnWire s) (hok : TxOK s) (b : Buffer) :
    OnWire { s with net := { s.net with txq := s.net.txq.stores b true }, sent := s.sent ++ [b] } := by
  obtain ⟨k, hk⟩ := h.pow
  have hpos := h.N_pos
  have hfree : s.net.txq.freeHead.toNat = s.sent.length % s.N := (hok.kept k hk).free
  have hslot : s.net.txq.slot s.net.txq.avail.idx = s.sent.length % s.N := by
    rw [hok.avail, h.slot_eq]
  have hstores := s.net.txq.stores_eq b true
  have hsize : (s.net.txq.stores b true).size = s.net.txq.size := by rw [hstores]
  refine ⟨⟨k, ?_⟩, ?_, ?_, h.split, ?_⟩
  · simp only [TxSys.N, hsize]
    exact hk
  · intro i hi hlt
    simp only [TxSys.N, hsize] at hi
    change i < s.N at hi
    rw [List.length_append, List.length_singleton] at hlt
    show ((s.net.txq.stores b true).availRing i).toNat = i
    rw [hstores]
    show (Function.update s.net.txq.availRing _ s.net.txq.freeHead i).toNat = i
    rw [hslot]
    by_cases hi' : i = s.sent.length % s.N
    · rw [hi', Function.update_self, hfree]
    · rw [Function.update_of_ne hi']
      refine h.ring i hi ?_
      -- the only new position is `sent.length`, and that one has the slot just written
      rcases Nat.lt_succ_iff_lt_or_eq.1 hlt with hold | hnew
      · exact hold
      · rw [← hnew, Nat.mod_eq_of_lt hi] at hi'
        exact absurd rfl hi'
  · intro p b' hp hlap
    simp only [TxSys.N, hsize] at hlap ⊢
    rw [List.length_append, List.length_singleton] at hlap
    rw [hstores]
    show Describes (Function.update s.net.txq.descriptor _ _ (p % s.N)) (b', true)
    rw [hfree]
    have hlt : p < s.sent.length + 1 := by
      have := (List.getElem?_eq_some_iff.1 hp).1
      rwa [List.length_append, List.length_singleton] at this
    rcases Nat.lt_succ_iff_lt_or_eq.1 hlt with hold | hnew
    · have hlap' : s.sent.length + 1 ≤ p + s.N := hlap
      have hne : p % s.N ≠ s.sent.length % s.N := by
        intro he
        exact absurd (slot_inj p le_rfl (by omega) hold.le (by omega) he) hold.ne
      rw [Function.update_of_ne hne]
      rw [List.getElem?_append_left hold] at hp
      exact h.desc p b' hp (by omega)
    · subst hnew
      rw [Function.update_self]
      obtain rfl : b = b' := by simpa using hp
      exact ⟨rfl, rfl, rfl⟩
  · intro t ht
    obtain ⟨hhead, m, hm, htm, b', hb', hd⟩ := h.entry t ht
    simp only [TxSys.N, hsize] at *
    refine ⟨hhead, m, ?_, htm, b', ?_, hd⟩
    · rw [List.length_append]
      omega
    · rw [List.getElem?_append_left (List.getElem?_eq_some_iff.1 hb').1]
      exact hb'

/-- **What the device reads**: the next entry names the slot of its position, and the
descriptor is that of the last buffer sent with this slot. -/
theorem next (h : OnWire s) (hlt : s.dev.taken < s.sent.length) :
    s.nextEntry.head.toNat = s.dev.taken % s.N ∧
      ∃ b, s.sent[lastAt s.N s.sent.length s.dev.taken]? = some b ∧ Describes s.nextEntry.desc (b, true) := by
  obtain ⟨hle, hm, hlap, hmod⟩ := lastAt_spec h.N_pos hlt
  have hslot := Nat.mod_lt s.dev.taken h.N_pos
  have hle' := Nat.mod_le s.dev.taken s.N
  have hhead : s.nextEntry.head.toNat = s.dev.taken % s.N := by
    show (s.net.txq.availRing (s.net.txq.slot _)).toNat = _
    rw [h.slot_eq]
    exact h.ring _ hslot (by omega)
  refine ⟨hhead, s.sent[lastAt s.N s.sent.length s.dev.taken], List.getElem?_eq_getElem hm, ?_⟩
  show Describes (s.net.txq.descriptor s.nextEntry.head.toNat) _
  rw [hhead, ← hmod]
  exact h.desc _ _ (List.getElem?_eq_getElem hm) hlap

/-- What the device does when it looks at the avail ring: nothing if the counters agree,
and else it takes an entry, of which there is one. -/
theorem take_cases (hok : TxOK s) : s.dev.take s.net.txq = s.dev ∨
    s.dev.taken < s.sent.length ∧ s.dev.take s.net.txq = ⟨s.dev.taken + 1, s.dev.inflight ++ [s.nextEntry]⟩ := by
  unfold Device.take
  split
  · exact .inl rfl
  · rename_i hne
    rw [hok.avail] at hne
    refine .inr ⟨lt_of_le_of_ne hok.taken ?_, rfl⟩
    intro heq
    exact hne (by rw [heq])

theorem take (h : OnWire s) (hok : TxOK s) : OnWire { s with dev := s.dev.take s.net.txq } := by
  rcases take_cases hok with hsame | ⟨hlt, hnew⟩
  · rw [hsame]
    exact h
  · obtain ⟨hhead, b, hb, hd⟩ := h.next hlt
    rw [hnew]
    refine ⟨h.pow, h.ring, h.desc, ?_, ?_⟩
    · show ((s.done ++ (s.dev.inflight ++ [_])).map Taken.pos).Perm (List.range (s.dev.taken + 1))
      rw [← List.append_assoc, List.map_append, List.range_succ]
      exact h.split.append_right _
    · intro t ht
      rw [← List.append_assoc] at ht
      rcases List.mem_append.1 ht with hold | hone
      · exact h.entry t hold
      · rw [List.mem_singleton.1 hone]
        exact ⟨hhead, s.sent.length, le_rfl, hlt, b, hb, hd⟩

theorem complete (h : OnWire s) (i : ℕ) (len : UInt32) : OnWire (s.complete i len) := by
  unfold TxSys.complete
  split
  · rename_i t ht
    obtain ⟨hi, rfl⟩ := List.getElem?_eq_some_iff.1 ht
    -- the entry moves from what the device holds to what it has returned
    have hperm : ((s.done ++ [s.dev.inflight[i]]) ++ s.dev.inflight.eraseIdx i).Perm
        (s.done ++ s.dev.inflight) := by
      rw [List.append_assoc]
      exact (List.getElem_cons_eraseIdx_perm hi).append_left _
    exact ⟨h.pow, h.ring, h.desc, (hperm.map _).trans h.split, fun t ht => h.entry t (hperm.mem_iff.1 ht)⟩
  · exact h

theorem step (h : OnWire s) (hok : TxOK s) {o : TxOp} (he : s.step o = .ok s') : OnWire s' := by
  cases o with
  | xmit b =>
    simp only [TxSys.step, hok.xmit_eq h.N_pos] at he
    obtain rfl := Except.ok.inj he
    exact h.posted hok b
  | take =>
    obtain rfl := Except.ok.inj he
    exact h.take hok
  | complete i len =>
    obtain rfl := Except.ok.inj he
    exact h.complete i len

/-- Both invariants, in every run. -/
theorem reach {id k : ℕ} {dev : DeviceConfig} {mem : ℕ → QueueMem} {heap : ℕ → Block} {net : VirtioNet}
    {allocs : ℕ} {allowed : TxSys → TxOp → Prop} (hk : (dev.queueSize 1).toNat = 2 ^ k)
    (hnew : VirtioNet.new id dev mem heap = .ok (some (net, allocs)))
    (h : Reach TxSys.step allowed (.init net) s) : TxOK s ∧ OnWire s :=
  h.inv (P := fun s => TxOK s ∧ OnWire s) ⟨.init hnew, .init hk hnew⟩ fun _ _ _ hs _ he =>
    ⟨hs.1.step he, hs.2.step hs.1 he⟩

end OnWire

/-- What holds in addition while the driver keeps within a ring of the device. -/
structure Within (s : TxSys) : Prop where
  ahead : s.sent.length ≤ s.dev.taken + s.N
  own : ∀ t ∈ s.done ++ s.dev.inflight, ∃ b, s.sent[t.pos]? = some b ∧ Describes t.desc (b, true)

namespace Within

variable {s s' : TxSys}

/-- The next entry is the one of its own buffer. -/
theorem next (h : Within s) (hw : OnWire s) (hlt : s.dev.taken < s.sent.length) :
    ∃ b, s.sent[s.dev.taken]? = some b ∧ Describes s.nextEntry.desc (b, true) := by
  have hnext := (hw.next hlt).2
  rwa [(lastAt_self hw.N_pos hlt).2 h.ahead] at hnext

/-- A difference of at most a ring is one that the device sees. -/
theorem sees (h : Within s) (hok : TxOK s) (hw : OnWire s) (hlt : s.dev.taken < s.sent.length) :
    UInt16.ofNat s.dev.taken ≠ s.net.txq.avail.idx := by
  obtain ⟨k, hk⟩ := hw.pow
  have hN : s.N ≤ 32768 := (word_pow_le hk).2
  have hahead := h.ahead
  rw [hok.avail, Ne, word_eq_iff hlt.le (by omega)]
  exact hlt.ne

theorem step (h : Within s) (hok : TxOK s) (hw : OnWire s) {o : TxOp} (ho : s.Room o)
    (he : s.step o = .ok s') : Within s' := by
  cases o with
  | xmit b =>
    have hroom : s.sent.length < s.dev.taken + s.N := ho
    simp only [TxSys.step, hok.xmit_eq hw.N_pos] at he
    obtain rfl := Except.ok.inj he
    have hsize : (s.net.txq.stores b true).size = s.net.txq.size := by rw [s.net.txq.stores_eq]
    refine ⟨?_, ?_⟩
    · simp only [TxSys.N, hsize, List.length_append, List.length_singleton]
      exact hroom
    · intro t ht
      obtain ⟨b', hb', hd⟩ := h.own t ht
      refine ⟨b', ?_, hd⟩
      rw [List.getElem?_append_left (List.getElem?_eq_some_iff.1 hb').1]
      exact hb'
  | take =>
    obtain rfl := Except.ok.inj he
    rcases OnWire.take_cases hok with hsame | ⟨hlt, hnew⟩
    · rw [hsame]
      exact h
    · obtain ⟨b, hb, hd⟩ := h.next hw hlt
      rw [hnew]
      refine ⟨?_, ?_⟩
      · have := h.ahead
        show s.sent.length ≤ s.dev.taken + 1 + s.N
        omega
      · intro t ht
        rw [← List.append_assoc] at ht
        rcases List.mem_append.1 ht with hold | hone
        · exact h.own t hold
        · rw [List.mem_singleton.1 hone]
          exact ⟨b, hb, hd⟩
  | complete i len =>
    obtain rfl := Except.ok.inj he
    unfold TxSys.complete
    split
    · rename_i t ht
      obtain ⟨hi, rfl⟩ := List.getElem?_eq_some_iff.1 ht
      refine ⟨h.ahead, fun t ht => h.own t ?_⟩
      rw [List.append_assoc] at ht
      exact ((List.getElem_cons_eraseIdx_perm hi).append_left s.done).mem_iff.1 ht
    · exact h

theorem reach {id k : ℕ} {dev : DeviceConfig} {mem : ℕ → QueueMem} {heap : ℕ → Block} {net : VirtioNet}
    {allocs : ℕ} (hk : (dev.queueSize 1).toNat = 2 ^ k)
    (hnew : VirtioNet.new id dev mem heap = .ok (some (net, allocs)))
    (h : Reach TxSys.step Room (.init net) s) : (TxOK s ∧ OnWire s) ∧ Within s := by
  refine h.inv (P := fun s => (TxOK s ∧ OnWire s) ∧ Within s)
    ⟨⟨.init hnew, .init hk hnew⟩, Nat.zero_le _, ?_⟩ ?_
  · intro t ht
    cases ht
  · intro s o s' hs ho he
    exact ⟨⟨hs.1.1.step he, hs.1.2.step hs.1.1 he⟩, hs.2.step hs.1.1 hs.1.2 ho he⟩

end Within

/-- **Every run.** However far the driver gets ahead of the device, and in whatever order
the device returns entries:
* an entry the device has taken names the slot of its position, and describes a buffer
  sent at this position or whole laps later;
* the next entry it takes describes the last buffer sent so far with its slot, which is
  the one sent at its position exactly if the driver is at most a ring ahead. -/
theorem TxSys.transmit_laps {id k : ℕ} {dev : DeviceConfig} {mem : ℕ → QueueMem} {heap : ℕ → Block}
    {net : VirtioNet} {allocs : ℕ} (hk : (dev.queueSize 1).toNat = 2 ^ k)
    (hnew : VirtioNet.new id dev mem heap = .ok (some (net, allocs))) {s : TxSys}
    (h : Reach TxSys.step (fun _ _ => True) (.init net) s) :
    (∀ t ∈ s.done ++ s.dev.inflight, t.head.toNat = t.pos % s.N ∧ ∃ p b, t.pos ≤ p ∧
      p % s.N = t.pos % s.N ∧ s.sent[p]? = some b ∧ Describes t.desc (b, true)) ∧
    (UInt16.ofNat s.dev.taken ≠ s.net.txq.avail.idx → ∃ t p b,
      s.dev.take s.net.txq = ⟨s.dev.taken + 1, s.dev.inflight ++ [t]⟩ ∧ t.pos = s.dev.taken ∧
      t.pos ≤ p ∧ p % s.N = t.pos % s.N ∧ s.sent.length ≤ p + s.N ∧ s.sent[p]? = some b ∧
      Describes t.desc (b, true) ∧ (p = t.pos ↔ s.sent.length ≤ t.pos + s.N)) := by
  obtain ⟨hok, hw⟩ := OnWire.reach hk hnew h
  refine ⟨?_, ?_⟩
  · intro t ht
    obtain ⟨hhead, m, -, htm, b, hb, hd⟩ := hw.entry t ht
    obtain ⟨hle, -, -, hmod⟩ := lastAt_spec hw.N_pos htm
    exact ⟨hhead, _, b, hle, hmod, hb, hd⟩
  · intro hne
    rcases OnWire.take_cases hok with hsame | ⟨hlt, hnew⟩
    · unfold Device.take at hsame
      rw [if_neg hne] at hsame
      have := congrArg Device.taken hsame
      simp at this
    · obtain ⟨-, b, hb, hd⟩ := hw.next hlt
      obtain ⟨hle, -, hlap, hmod⟩ := lastAt_spec hw.N_pos hlt
      exact ⟨_, _, b, hnew, rfl, hle, hmod, hlap, hb, hd, lastAt_self hw.N_pos hlt⟩

/-- Three buffers on a ring of two, before the device looks: its first entry is the third
buffer. -/
theorem TxSys.transmit_laps_three : ∃ s : TxSys, s.dev.taken = 0 ∧ s.sent.length = 3 ∧
    ∃ t p b, s.dev.take s.net.txq = ⟨1, s.dev.inflight ++ [t]⟩ ∧ t.pos = 0 ∧ p ≠ 0 ∧
      s.sent[p]? = some b ∧ Describes t.desc (b, true) := by
  have hrun : (run2 [.xmit (.page 4096), .xmit (.page 8192), .xmit (.page 12288)]).map
      (fun s => (s.dev.taken, s.sent.length, s.N, decide (UInt16.ofNat s.dev.taken ≠ s.net.txq.avail.idx))) =
      some (0, 3, 2, true) := by decide +kernel
  obtain ⟨s, hs, hobs⟩ := Option.map_eq_some_iff.1 hrun
  obtain ⟨htaken, hobs⟩ := Prod.mk.inj hobs
  obtain ⟨hsent, hobs⟩ := Prod.mk.inj hobs
  obtain ⟨hN, hne⟩ := Prod.mk.inj hobs
  obtain ⟨net, allocs, hnew, hreach⟩ := reach_runNet hs
  obtain ⟨t, p, b, htake, hpos, -, -, -, hb, hd, hiff⟩ :=
    (transmit_laps (k := 1) rfl hnew hreach).2 (of_decide_eq_true hne)
  rw [htaken] at htake hpos
  refine ⟨s, htaken, hsent, t, p, b, htake, hpos, ?_, hb, hd⟩
  intro hp
  have := hiff.1 (hp.trans hpos.symm)
  omega

/-- **Frames go out in the order of `xmit`, each once.** In every run of a driver that
stays within a ring of the device, with a device that returns entries in any order:
* the entries taken are those of the first positions, each once;
* each of them describes the buffer sent at its position, for reading;
* while some buffer is not taken, the device finds the next one, and then it finds
  nothing more. -/
theorem TxSys.transmit_in_order {id k : ℕ} {dev : DeviceConfig} {mem : ℕ → QueueMem} {heap : ℕ → Block}
    {net : VirtioNet} {allocs : ℕ} (hk : (dev.queueSize 1).toNat = 2 ^ k)
    (hnew : VirtioNet.new id dev mem heap = .ok (some (net, allocs))) {s : TxSys}
    (h : Reach TxSys.step Room (.init net) s) :
    ((s.done ++ s.dev.inflight).map Taken.pos).Perm (List.range s.dev.taken) ∧
    s.dev.taken ≤ s.sent.length ∧
    (∀ t ∈ s.done ++ s.dev.inflight, ∃ b, s.sent[t.pos]? = some b ∧ Describes t.desc (b, true)) ∧
    (s.dev.taken < s.sent.length → ∃ t b,
      s.dev.take s.net.txq = ⟨s.dev.taken + 1, s.dev.inflight ++ [t]⟩ ∧ t.pos = s.dev.taken ∧
      s.sent[t.pos]? = some b ∧ Describes t.desc (b, true)) ∧
    (s.dev.taken = s.sent.length → s.dev.take s.net.txq = s.dev) := by
  obtain ⟨⟨hok, hw⟩, hin⟩ := Within.reach hk hnew h
  refine ⟨hw.split, hok.taken, hin.own, ?_, ?_⟩
  · intro hlt
    obtain ⟨b, hb, hd⟩ := hin.next hw hlt
    refine ⟨s.nextEntry, b, ?_, rfl, hb, hd⟩
    unfold Device.take
    rw [if_neg (hin.sees hok hw hlt)]
    rfl
  · intro heq
    unfold Device.take
    rw [if_pos (by rw [hok.avail, heq])]

/-- Three buffers through a ring of two, the first one returned after the second. -/
theorem TxSys.transmit_in_order_three : ∃ net allocs s,
    VirtioNet.new 0 .rx64 (fun _ => .zero) pages = .ok (some (net, allocs)) ∧
    Reach TxSys.step Room (.init net) s ∧ s.sent.length = 3 ∧ s.dev.taken = 3 ∧
    ((s.done ++ s.dev.inflight).map Taken.pos).Perm (List.range 3) := by
  have hrun : (runNet .rx64 (fun net _ => .init net) TxSys.step Room
      [.xmit (.page 4096), .xmit (.page 8192), .take, .take, .complete 1 0, .xmit (.page 12288), .take,
        .complete 0 0]).map (fun s => (s.sent.length, s.dev.taken)) = some (3, 3) := by decide +kernel
  obtain ⟨s, hs, hobs⟩ := Option.map_eq_some_iff.1 hrun
  obtain ⟨hsent, htaken⟩ := Prod.mk.inj hobs
  obtain ⟨net, allocs, hnew, hreach⟩ := reach_runNet hs
  refine ⟨net, allocs, s, hnew, hreach, hsent, htaken, ?_⟩
  rw [← htaken]
  exact (transmit_in_order (k := 1) rfl hnew hreach).1

end Urchin
