import Urchin.Proof.Queue

/-!
# Descriptor ownership when the device returns descriptors in any order

`push` takes descriptors round robin, so it relies on the descriptor used `N`
pushes earlier being free again. It is, in a run where every push finds that
position handed out (`Recycling`), and then no push selects a descriptor that is
still out and every returned buffer is handed out exactly once
(`recycling_ownership`). A device that returns a younger descriptor first breaks
it: `overtaken_descriptor`.
-/

namespace Urchin

open Exec Circ

namespace QueueSys

/-- Descriptor `d` is out: the device has returned it and `pop` has not handed it
out, or the device holds it, or it is available. -/
def Outstanding (s : QueueSys) (d : ℕ) : Prop :=
  (∃ t ∈ s.done.drop s.popped.length ++ s.dev.inflight, t.head.toNat = d) ∨
    ∃ j, s.dev.taken ≤ j ∧ j < s.pushed.length ∧
      (s.q.availRing (s.q.slot (UInt16.ofNat j))).toNat = d

/-- The driver keeps at most `N` buffers between `push` and `pop`; the device
returns its entries in any order. -/
def Guarded (s : QueueSys) : QueueOp → Prop
  | .push _ _ => s.pushed.length < s.popped.length + s.N
  | .pop | .take | .complete _ _ => True

/-- As `Guarded`, and every push finds the previous user of its descriptor handed
out. -/
def Recycling (s : QueueSys) (o : QueueOp) : Prop :=
  s.Guarded o ∧ ∀ b g, o = .push b g → s.Recycled

instance (s : QueueSys) (o : QueueOp) : Decidable (s.Guarded o) :=
  match o with
  | .push _ _ => inferInstanceAs (Decidable (_ < _))
  | .pop | .take | .complete _ _ => inferInstanceAs (Decidable True)

instance (s : QueueSys) (p : ℕ) : Decidable (s.Popped p) := inferInstanceAs (Decidable (_ ∈ _))

instance (s : QueueSys) : Decidable s.Recycled :=
  decidable_of_iff (s.pushed.length < s.N ∨ s.Popped (s.pushed.length - s.N)) <| by
    unfold Recycled
    constructor
    · rintro (h | h) p hp
      · omega
      · rwa [show p = s.pushed.length - s.N by omega]
    · intro h
      by_cases hlt : s.pushed.length < s.N
      · exact .inl hlt
      · exact .inr (h _ (by omega))

instance (s : QueueSys) (o : QueueOp) : Decidable (s.Recycling o) :=
  match o with
  | .push b g => decidable_of_iff (s.Guarded (.push b g) ∧ s.Recycled)
      ⟨fun h => ⟨h.1, fun _ _ _ => h.2⟩, fun h => ⟨h.1, h.2 b g rfl⟩⟩
  | .pop => .isTrue ⟨trivial, by rintro _ _ ⟨⟩⟩
  | .take => .isTrue ⟨trivial, by rintro _ _ ⟨⟩⟩
  | .complete _ _ => .isTrue ⟨trivial, by rintro _ _ ⟨⟩⟩

end QueueSys

namespace QueueOK

variable {s : QueueSys}

/-- The descriptors that are out are those of the positions not handed out. -/
theorem outstanding_iff (h : QueueOK s) (d : ℕ) :
    s.Outstanding d ↔ ∃ p, p < s.pushed.length ∧ ¬ s.Popped p ∧ p % s.N = d := by
  constructor
  · rintro (⟨t, ht, rfl⟩ | ⟨j, h1, h2, rfl⟩)
    · have hmem : t ∈ s.done ++ s.dev.inflight := by
        rcases List.mem_append.1 ht with ht | ht
        · exact List.mem_append_left _ (List.mem_of_mem_drop ht)
        · exact List.mem_append_right _ ht
      exact ⟨t.pos, lt_of_lt_of_le (h.pos_lt hmem) h.taken, h.not_popped_of_mem ht,
        (h.entry t hmem).1.symm⟩
    · have hj : (s.q.availRing (j % s.N)).toNat = j % s.N := h.posted j h1 h2
      rw [h.slot_eq, hj]
      exact ⟨j, h2, h.not_popped_of_taken_le h1, rfl⟩
  · rintro ⟨p, hp, hnp, rfl⟩
    by_cases hpt : p < s.dev.taken
    · -- the device took it, so it is with the device or in the used ring
      left
      obtain ⟨t, ht, rfl⟩ := List.mem_map.1 (h.split.mem_iff.2 (List.mem_range.2 hpt))
      refine ⟨t, ?_, (h.entry t ht).1⟩
      rw [← List.take_append_drop s.popped.length s.done, List.append_assoc] at ht
      rcases List.mem_append.1 ht with ht | ht
      · exact absurd (List.mem_map_of_mem ht) hnp
      · exact ht
    · right
      push Not at hpt
      exact ⟨p, hpt, hp, by rw [h.slot_eq]; exact h.posted p hpt hp⟩

/-- **The next push hits a descriptor that is out exactly when the position a lap
before it is not handed out.** -/
theorem free_outstanding_iff (h : QueueOK s) :
    s.Outstanding s.q.freeHead.toNat ↔ ¬ s.Recycled := by
  rw [h.outstanding_iff, h.free]
  constructor
  · rintro ⟨p, hp, hnp, he⟩ hr
    exact h.recycled_ne hr hp hnp he
  · intro hr
    unfold QueueSys.Recycled at hr
    push Not at hr
    obtain ⟨p, hp, hnp⟩ := hr
    have := h.N_pos
    exact ⟨p, by omega, hnp, by rw [← hp, Nat.add_mod_right]⟩

theorem reach_recycling {q : Virtqueue} (h0 : QueueOK (.init q))
    (h : Reach QueueSys.step QueueSys.Recycling (.init q) s) : QueueOK s := by
  refine h.inv h0 ?_
  intro s o s' hs ho he
  cases o with
  | push b g =>
    obtain ⟨h1, h2⟩ := hs.push_ok (ho.2 b g rfl) b g
    rw [h1] at he
    rw [← Except.ok.inj he]; exact h2
  | pop =>
    obtain ⟨out, q', hq', -, hok⟩ := hs.pop_ok
    simp only [QueueSys.step, hq', Except.map, Except.ok.injEq] at he
    rw [← he]; exact hok
  | take => rw [← Except.ok.inj he]; exact hs.take_ok
  | complete i len => rw [← Except.ok.inj he]; exact hs.complete_ok i len

end QueueOK

/-- **Ownership under any completion order.** In every state of a run in which
every push finds the position a lap before it handed out:
* the next push selects a descriptor that is out exactly if that position is not
  handed out;
* no position is returned twice, the buffers handed out are those of the
  positions returned first, one for one, and the next `pop` hands out the rest. -/
theorem recycling_ownership {size : UInt16} {k : ℕ} (hk : size.toNat = 2 ^ k)
    {isIndirect usedInterrupt : Bool} {m : QueueMem} {q : Virtqueue}
    (hq : Virtqueue.new size isIndirect usedInterrupt m = some q) {s : QueueSys}
    (h : Reach QueueSys.step QueueSys.Recycling (.init q) s) :
    (s.Outstanding s.q.freeHead.toNat ↔ ¬ s.Recycled) ∧
    (s.done.map Taken.pos).Nodup ∧
    (s.popped.map some = (s.done.take s.popped.length).map fun t => (s.pushed[t.pos]?).map Prod.fst) ∧
    ∃ s', s.step .pop = .ok s' ∧
      s'.popped.map some = s.done.map fun t => (s.pushed[t.pos]?).map Prod.fst := by
  have hok := QueueOK.reach_recycling (QueueOK.init hk hq) h
  refine ⟨hok.free_outstanding_iff, ?_, hok.out, ?_⟩
  · have := hok.nodup
    rw [List.map_append] at this
    exact this.of_append_left
  · obtain ⟨out, q', hq', hlen, hpop⟩ := hok.pop_ok
    refine ⟨{ s with q := q', popped := s.popped ++ out }, by simp [QueueSys.step, hq', Except.map], ?_⟩
    have := hpop.out
    simp only [hlen, List.take_length] at this
    exact this

/-- Both descriptors of a two-entry queue returned, the younger first, before the
next push. -/
theorem recycling_ownership_two : ∃ s, Reach QueueSys.step QueueSys.Recycling (.init .two) s ∧
    s.done.map Taken.pos = [1, 0] ∧ s.pushed.length = 3 ∧ (s.Outstanding s.q.freeHead.toNat ↔ ¬ s.Recycled) := by
  have hrun : (runIf QueueSys.step QueueSys.Recycling (.init .two) [.push (.page 4096) false,
      .push (.page 8192) false, .take, .take, .complete 1 60, .complete 0 60, .pop,
      .push (.page 12288) false]).map
      (fun s => (s.done.map Taken.pos, s.pushed.length)) = some ([1, 0], 3) := by decide +kernel
  obtain ⟨s, hs, hlen⟩ := Option.map_eq_some_iff.1 hrun
  obtain ⟨h1, h2⟩ := Prod.mk.inj hlen
  have hreach := Reach.of_runIf _ hs
  exact ⟨s, hreach, h1, h2, (recycling_ownership (k := 1) rfl Virtqueue.two_eq hreach).1⟩

/-- A run of the two-entry queue: two buffers pushed and taken, the younger one
returned and handed out. -/
def overtaking : List QueueOp :=
  [.push (.page 4096) false, .push (.page 8192) false, .take, .take, .complete 1 60, .pop]

/-- Its state, and the state after a third push, the return of the first
descriptor and a `pop`. -/
def overtaken : Option (QueueSys × QueueSys) := do
  let s ← runIf QueueSys.step QueueSys.Guarded (.init .two) overtaking
  let s' ← runIf QueueSys.step QueueSys.Guarded s [.push (.page 12288) false, .complete 0 60, .pop]
  pure (s, s')

/-- **A device that returns the younger of two descriptors first.** One of two
buffers is out, so the driver may push, and `push` selects the descriptor that the
device still holds. When the device then returns that descriptor, which it read
with the first buffer's address, `pop` hands out the third buffer, and the first
one is never handed out. -/
theorem overtaken_descriptor : ∃ s s' : QueueSys, Reach QueueSys.step QueueSys.Guarded (.init .two) s ∧
    s.pushed.length < s.popped.length + s.N ∧ s.Outstanding s.q.freeHead.toNat ∧
    Reach QueueSys.step QueueSys.Guarded s s' ∧ s'.done.map (·.desc.addr) = [8192, 4096] ∧
    s'.popped.map Buffer.getAddress = [8192, 12288] := by
  have hsome : overtaken.isSome := by decide +kernel
  obtain ⟨⟨s, s'⟩, hss⟩ := Option.isSome_iff_exists.1 hsome
  have hs := hss
  unfold overtaken at hs
  obtain ⟨s₁, h₁, hs⟩ := Option.bind_eq_some_iff.1 hs
  obtain ⟨s₂, h₂, hs⟩ := Option.bind_eq_some_iff.1 hs
  obtain ⟨rfl, rfl⟩ := Prod.mk.inj (Option.some.inj hs)
  have hfacts : overtaken.map (fun x => (decide (x.1.pushed.length < x.1.popped.length + x.1.N),
      x.1.dev.inflight.map (·.head.toNat), x.1.q.freeHead.toNat, x.2.done.map (·.desc.addr),
      x.2.popped.map Buffer.getAddress)) = some (true, [0], 0, [8192, 4096], [8192, 12288]) := by
    decide +kernel
  rw [hss] at hfacts
  simp only [Option.map_some, Option.some.injEq, Prod.mk.injEq, decide_eq_true_eq] at hfacts
  obtain ⟨hroom, hheads, hfree, hdone, hpop⟩ := hfacts
  refine ⟨s₁, s₂, Reach.of_runIf _ h₁, hroom, ?_, Reach.of_runIf _ h₂, hdone, hpop⟩
  left
  have h0 : (0 : ℕ) ∈ s₁.dev.inflight.map (·.head.toNat) := by rw [hheads]; exact List.mem_singleton.2 rfl
  obtain ⟨t, ht, hd⟩ := List.mem_map.1 h0
  exact ⟨t, List.mem_append_right _ ht, by rw [hfree]; exact hd⟩

end Urchin
