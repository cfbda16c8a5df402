import Urchin.Proof.Queue

/-!
# A virtqueue is a FIFO

With a device that returns entries in the order it took them, and a driver that
pushes only while fewer than `N` buffers are between `push` and `pop`
(`InOrder`), the positions handed out are `0, 1, 2, …` (`FifoOK`). So `pop` hands
out the pushed buffers in order (`virtqueue_fifo`), for runs of any length: the
counters may wrap any number of times.
-/

namespace Urchin

open Exec Circ

/-- The steps of a run with an in-order device and a driver that keeps at most `N`
buffers between `push` and `pop`. -/
def InOrder (s : QueueSys) : QueueOp → Prop
  | .push _ _ => s.pushed.length < s.popped.length + s.N
  | .complete i _ => i = 0
  | .pop | .take => True

instance (s : QueueSys) (o : QueueOp) : Decidable (InOrder s o) :=
  match o with
  | .push _ _ => inferInstanceAs (Decidable (_ < _))
  | .complete i _ => inferInstanceAs (Decidable (i = 0))
  | .pop | .take => inferInstanceAs (Decidable True)

/-- The invariant of such a run. -/
structure FifoOK (s : QueueSys) : Prop extends QueueOK s where
  order : (s.done ++ s.dev.inflight).map Taken.pos = List.range s.dev.taken

namespace FifoOK

variable {s : QueueSys}

theorem done_pos (h : FifoOK s) : s.done.map Taken.pos = List.range s.done.length := by
  have hle : s.done.length ≤ s.dev.taken := by
    have := congrArg List.length h.order
    simp only [List.length_map, List.length_append, List.length_range] at this
    omega
  have := congrArg (List.take s.done.length) h.order
  rw [List.map_append, List.take_left' (by simp), List.take_range, min_eq_left hle] at this
  exact this

theorem popped_iff (h : FifoOK s) (p : ℕ) : s.Popped p ↔ p < s.popped.length := by
  unfold QueueSys.Popped
  rw [List.map_take, h.done_pos, List.take_range, min_eq_left h.lag, List.mem_range]

/-- While fewer than `N` buffers are out, the next descriptor is recycled. -/
theorem recycled (h : FifoOK s) (hroom : s.pushed.length < s.popped.length + s.N) : s.Recycled := by
  intro p hp
  rw [h.popped_iff]; omega

/-- What has been handed out is a prefix of what was pushed. -/
theorem popped_eq_take (h : FifoOK s) :
    s.popped = (s.pushed.map Prod.fst).take s.popped.length := by
  have hinj : Function.Injective (some : Buffer → Option Buffer) := Option.some_injective _
  apply hinj.list_map
  have hle : s.popped.length ≤ s.pushed.length := by
    have h1 := h.lag; have h2 := h.done_le_pushed
    omega
  rw [h.out]
  apply List.ext_getElem?
  intro i
  have hget : s.done[i]?.map Taken.pos = (List.range s.done.length)[i]? := by
    rw [← h.done_pos, List.getElem?_map]
  simp only [List.getElem?_map, List.getElem?_take]
  by_cases hi : i < s.popped.length
  · have hid : i < s.done.length := lt_of_lt_of_le hi h.lag
    rw [List.getElem?_range hid, List.getElem?_eq_getElem hid] at hget
    simp only [Option.map_some, Option.some.injEq] at hget
    rw [if_pos hi, if_pos hi, List.getElem?_eq_getElem hid]
    simp only [Option.map_some, hget]
    rw [List.getElem?_eq_getElem (lt_of_lt_of_le hi hle)]; simp
  · simp [hi]

/-- **Every step of an in-order run succeeds and keeps the invariant.** -/
theorem step_ok (h : FifoOK s) {o : QueueOp} (ho : InOrder s o) : ∃ s', s.step o = .ok s' ∧ FifoOK s' := by
  cases o with
  | push b g =>
    obtain ⟨h1, h2⟩ := h.push_ok (h.recycled ho) b g
    exact ⟨_, h1, h2, h.order⟩
  | pop =>
    obtain ⟨out, q', hq', -, hok⟩ := h.pop_ok
    exact ⟨{ s with q := q', popped := s.popped ++ out }, by simp [QueueSys.step, hq', Except.map], hok,
      h.order⟩
  | take =>
    refine ⟨_, rfl, h.take_ok, ?_⟩
    simp only [Device.take]
    split
    · exact h.order
    · rw [← List.append_assoc, List.map_append, h.order, List.range_succ]; rfl
  | complete i len =>
    have hi : i = 0 := ho
    subst hi
    refine ⟨_, rfl, h.complete_ok 0 len, ?_⟩
    unfold QueueSys.complete
    split
    · rename_i t ht
      -- the oldest entry moves from the device to the used ring
      have hcons : s.dev.inflight = t :: s.dev.inflight.eraseIdx 0 := by
        cases hin : s.dev.inflight with
        | nil => rw [hin] at ht; simp at ht
        | cons x xs => rw [hin] at ht; simp at ht; subst ht; rfl
      have := h.order
      rw [hcons] at this
      simpa using this
    · exact h.order

theorem reach {q : Virtqueue} (h0 : QueueOK (.init q)) (h : Reach QueueSys.step InOrder (.init q) s) :
    FifoOK s := by
  refine h.inv ⟨h0, rfl⟩ ?_
  intro s o s' hs ho he
  obtain ⟨s'', h1, h2⟩ := hs.step_ok ho
  rw [h1] at he
  obtain rfl := Except.ok.inj he
  exact h2

end FifoOK

/-- **A virtqueue is a FIFO.** In every state of every in-order run of a queue
whose size is a power of two:
* what `pop` has handed out is a prefix of what was pushed;
* `pop` does not panic, and hands out exactly the buffers that the device has
  returned and `pop` has not handed out yet;
* `push`, when fewer than `N` buffers are out, does not panic, and leaves the
  descriptor and the `buffers` slot of every such buffer as they are, still that
  buffer's. -/
theorem virtqueue_fifo {size : UInt16} {k : ℕ} (hk : size.toNat = 2 ^ k) {isIndirect usedInterrupt : Bool}
    {m : QueueMem} {q : Virtqueue} (hq : Virtqueue.new size isIndirect usedInterrupt m = some q)
    {s : QueueSys} (h : Reach QueueSys.step InOrder (.init q) s) :
    s.popped <+: s.pushed.map Prod.fst ∧
    (∃ s', s.step .pop = .ok s' ∧
      s'.popped = s.popped ++ ((s.pushed.map Prod.fst).take s.done.length).drop s.popped.length) ∧
    ∀ b g, s.pushed.length < s.popped.length + size.toNat → ∃ s', s.step (.push b g) = .ok s' ∧
      ∀ p e, s.pushed[p]? = some e → s.popped.length ≤ p →
        s.q.freeHead.toNat ≠ p % size.toNat ∧
        s.q.buffers (p % size.toNat) = some e.1 ∧ Describes (s.q.descriptor (p % size.toNat)) e ∧
        s'.q.buffers (p % size.toNat) = s.q.buffers (p % size.toNat) ∧
        s'.q.descriptor (p % size.toNat) = s.q.descriptor (p % size.toNat) := by
  have hok : FifoOK s := FifoOK.reach (QueueOK.init hk hq) h
  have hN : s.N = size.toNat := by
    rw [QueueSys.reach_N h, (Virtqueue.new_fields hq).1]
  refine ⟨?_, ?_, ?_⟩
  · rw [hok.popped_eq_take]; exact List.take_prefix _ _
  · obtain ⟨out, q', hq', hlen, hpop⟩ := hok.pop_ok
    refine ⟨{ s with q := q', popped := s.popped ++ out }, by simp [QueueSys.step, hq', Except.map], ?_⟩
    have hfifo : FifoOK { s with q := q', popped := s.popped ++ out } := ⟨hpop, hok.order⟩
    have htake := hfifo.popped_eq_take
    simp only [hlen] at htake
    rw [← htake, List.drop_left]
  · intro b g hroom
    rw [← hN] at hroom ⊢
    have hrec := hok.recycled hroom
    obtain ⟨hstep, -⟩ := hok.push_ok hrec b g
    refine ⟨_, hstep, fun p e he hp => ?_⟩
    have hlt : p < s.pushed.length := (List.getElem?_eq_some_iff.1 he).1
    have hnp : ¬ s.Popped p := by rw [hok.popped_iff]; omega
    have hne := hok.recycled_ne hrec hlt hnp
    obtain ⟨-, hbuf, hdesc⟩ := hok.live p e he hnp
    refine ⟨by rw [hok.free]; exact hne.symm, hbuf, hdesc, ?_, ?_⟩
    · rw [s.q.stores_eq, hok.free]; exact Function.update_of_ne hne _ _
    · rw [s.q.stores_eq, hok.free]; exact Function.update_of_ne hne _ _

/-- A run on a queue of two entries: two pushes, one of them returned and handed
out, and a third push, which wraps around the ring. -/
theorem virtqueue_fifo_two : ∃ s, Reach QueueSys.step InOrder (.init .two) s ∧
    s.pushed.length = 3 ∧ s.popped.length = 1 ∧ s.popped <+: s.pushed.map Prod.fst := by
  have hrun : (runIf QueueSys.step InOrder (.init .two) [.push (.page 4096) false,
      .push (.page 8192) false, .take, .complete 0 60, .pop, .push (.page 12288) false]).map
      (fun s => (s.pushed.length, s.popped.length)) = some (3, 1) := by decide +kernel
  obtain ⟨s, hs, hlen⟩ := Option.map_eq_some_iff.1 hrun
  obtain ⟨h3, h1⟩ := Prod.mk.inj hlen
  have hreach := Reach.of_runIf _ hs
  exact ⟨s, hreach, h3, h1, (virtqueue_fifo (k := 1) rfl Virtqueue.two_eq hreach).1⟩

end Urchin
