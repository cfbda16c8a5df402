import Urchin.Proof.RingBuf

/-!
# The ring buffer used by one caller

Without interference the ring buffer is a queue. Slots that were consumed keep their old
elements, so the invariant (`Stores`) says which slots are live: element `i` of the queue,
counted from the first one ever put, is in slot `i % RINGBUF_LENGTH`. One slot stays free,
because a full ring would look empty.

Each call keeps the invariant, and so does every sequence of calls (`ring_fifo`).
-/

namespace Urchin

open Exec Circ

variable {T : Type*}

/-- What a queue `q` answers to the calls, and what is in it afterwards. -/
def fifo (q : List T) : List (RingCall T) → List T × List (Option T)
  | [] => (q, [])
  | .put val :: calls => fifo (q ++ [val]) calls
  | .get :: calls => ((fifo q.tail calls).1, q.head? :: (fifo q.tail calls).2)

/-- `put` is called only while fewer than `RINGBUF_LENGTH - 1` elements are stored. -/
def Roomy (q : List T) : List (RingCall T) → Prop
  | [] => True
  | .put val :: calls => q.length < RINGBUF_LENGTH - 1 ∧ Roomy (q ++ [val]) calls
  | .get :: calls => Roomy q.tail calls

/-- The elements put, in order. -/
def putsOf (calls : List (RingCall T)) : List T :=
  calls.filterMap fun
    | .put val => some val
    | .get => none

/-- What is returned comes in the order it was put, and the rest is stored: a get returns the
oldest element that has not been returned, and nothing exactly if there is none. -/
theorem fifo_order (q : List T) (calls : List (RingCall T)) :
    q ++ putsOf calls = (fifo q calls).2.filterMap id ++ (fifo q calls).1 := by
  induction calls generalizing q with
  | nil => simp [fifo, putsOf]
  | cons call calls ih =>
    cases call with
    | put val =>
      calc q ++ putsOf (.put val :: calls) = (q ++ [val]) ++ putsOf calls := by simp [putsOf]
        _ = (fifo (q ++ [val]) calls).2.filterMap id ++ (fifo (q ++ [val]) calls).1 := ih _
    | get =>
      have hputs : putsOf (.get :: calls) = putsOf calls := rfl
      have hrest := ih q.tail
      cases q with
      | nil => exact hrest
      | cons x q =>
        rw [hputs, List.cons_append]
        exact congrArg (x :: ·) hrest

/-- The ring buffer stores the elements of `puts` from number `n` on. -/
structure Stores (r : RingBuffer T) (puts : List T) (n : ℕ) : Prop where
  len : r.length = RINGBUF_LENGTH
  read : r.readidx = n % RINGBUF_LENGTH
  write : r.writeidx = puts.length % RINGBUF_LENGTH
  le : n ≤ puts.length
  room : puts.length < n + RINGBUF_LENGTH
  live : Holds RINGBUF_LENGTH r.buffer (fun i => puts[i]?) n puts.length

namespace Stores

variable {r : RingBuffer T} {puts : List T} {n fuel : ℕ}

theorem new : Stores (.new : RingBuffer T) [] 0 :=
  ⟨rfl, rfl, rfl, le_rfl, RINGBUF_LENGTH_pos, Holds.empty _ _ 0⟩

/-- The indices are equal only if nothing is stored. -/
theorem read_eq_write_iff (h : Stores r puts n) : r.readidx = r.writeidx ↔ n = puts.length := by
  rw [h.read, h.write]
  constructor
  · exact slot_inj n le_rfl (by have := RINGBUF_LENGTH_pos; omega) h.le h.room
  · intro he
    rw [he]

/-- **A put with room returns after four steps**, one for each access. -/
theorem put (h : Stores r puts n) (hroom : puts.length - n < RINGBUF_LENGTH - 1) (hfuel : 4 ≤ fuel) (val : T) :
    ∃ r', r.put fuel (.loadRead val) = .ok (some r') ∧ Stores r' (puts ++ [val]) n := by
  obtain ⟨fuel, rfl⟩ := Nat.exists_eq_add_of_le' hfuel
  have hle := h.le
  -- the slot after the next one is free
  have hfree : r.readidx ≠ (r.writeidx + 1) % RINGBUF_LENGTH := by
    rw [h.read, h.write, Nat.mod_add_mod]
    intro he
    have := slot_inj n le_rfl (by omega) (by omega) (by omega) he
    omega
  have hslot : r.writeidx < r.length := by
    rw [h.write, h.len]
    exact Nat.mod_lt _ RINGBUF_LENGTH_pos
  refine ⟨{ r with
    writeidx := (r.writeidx + 1) % RINGBUF_LENGTH
    buffer := Function.update r.buffer r.writeidx (some val) }, ?_, ?_⟩
  · simp only [RingBuffer.put, RingBuffer.putStep, Except.bind, if_pos hfree, if_true, if_pos hslot]
  · have hlen : (puts ++ [val]).length = puts.length + 1 := by simp
    refine ⟨h.len, h.read, ?_, ?_, ?_, ?_⟩
    · rw [hlen, h.write, Nat.mod_add_mod]
    · omega
    · omega
    · rw [hlen, h.write]
      have hold : Holds RINGBUF_LENGTH r.buffer (fun i => (puts ++ [val])[i]?) n puts.length :=
        h.live.congr fun i _ hi => (List.getElem?_append_left hi).symm
      exact hold.push (π := id) h.room (by simp)

/-- A get on a ring buffer with nothing stored. -/
theorem get_empty (h : Stores r puts n) (hn : n = puts.length) (hfuel : 4 ≤ fuel) :
    r.get fuel .loadWrite = .ok (some (r, none)) := by
  obtain ⟨fuel, rfl⟩ := Nat.exists_eq_add_of_le' hfuel
  have hidx := h.read_eq_write_iff.2 hn
  simp only [RingBuffer.get, RingBuffer.getStep, Except.bind, if_pos hidx]

theorem get (h : Stores r puts n) (hn : n < puts.length) (hfuel : 4 ≤ fuel) :
    ∃ r', r.get fuel .loadWrite = .ok (some (r', puts[n]?)) ∧ Stores r' puts (n + 1) := by
  obtain ⟨fuel, rfl⟩ := Nat.exists_eq_add_of_le' hfuel
  have hidx : r.readidx ≠ r.writeidx := fun he => hn.ne (h.read_eq_write_iff.1 he)
  have hslot : r.readidx < r.length := by
    rw [h.read, h.len]
    exact Nat.mod_lt _ RINGBUF_LENGTH_pos
  have helem : r.buffer r.readidx = puts[n]? := by
    rw [h.read]
    exact h.live n le_rfl hn
  have hroom := h.room
  refine ⟨{ r with readidx := (r.readidx + 1) % RINGBUF_LENGTH }, ?_, ?_⟩
  · simp only [RingBuffer.get, RingBuffer.getStep, Except.bind, if_neg hidx, if_true, if_pos hslot, helem]
  · refine ⟨h.len, ?_, h.write, hn, by omega, h.live.mono (Nat.le_succ n) le_rfl⟩
    rw [h.read, Nat.mod_add_mod]

/-- **A get returns the oldest element** that is stored, and nothing if there is none. -/
theorem get_head (h : Stores r puts n) (hfuel : 4 ≤ fuel) :
    ∃ r' n', r.get fuel .loadWrite = .ok (some (r', (puts.drop n).head?)) ∧ Stores r' puts n' ∧
      puts.drop n' = (puts.drop n).tail := by
  rcases Nat.eq_or_lt_of_le h.le with hn | hn
  · refine ⟨r, n, ?_, h, ?_⟩
    · rw [h.get_empty hn hfuel, List.head?_drop, List.getElem?_eq_none hn.ge]
    · rw [hn, List.drop_length, List.tail_nil]
  · obtain ⟨r', hget, h'⟩ := h.get hn hfuel
    refine ⟨r', n + 1, ?_, h', List.tail_drop.symm⟩
    rw [hget, List.head?_drop]

/-- **Every sequence of calls** is answered as by the queue of the elements stored. -/
theorem serve (h : Stores r puts n) (hfuel : 4 ≤ fuel) (calls : List (RingCall T))
    (hroomy : Roomy (puts.drop n) calls) :
    ∃ r' puts' n', r.serve fuel calls = .ok (some (r', (fifo (puts.drop n) calls).2)) ∧
      Stores r' puts' n' ∧ puts'.drop n' = (fifo (puts.drop n) calls).1 := by
  induction calls generalizing r puts n with
  | nil => exact ⟨r, puts, n, rfl, h, rfl⟩
  | cons call calls ih =>
    cases call with
    | put val =>
      obtain ⟨hroom, hrest⟩ := hroomy
      rw [List.length_drop] at hroom
      obtain ⟨r₁, hput, h₁⟩ := h.put hroom hfuel val
      have hq : puts.drop n ++ [val] = (puts ++ [val]).drop n := (List.drop_append_of_le_length h.le).symm
      rw [hq] at hrest
      obtain ⟨r', puts', n', hserve, h', hstored⟩ := ih h₁ hrest
      refine ⟨r', puts', n', ?_, h', ?_⟩
      · rw [RingBuffer.serve, hput, fifo, hq]
        exact hserve
      · rw [fifo, hq]
        exact hstored
    | get =>
      obtain ⟨r₁, n₁, hget, h₁, hq⟩ := h.get_head hfuel
      have hrest : Roomy (puts.drop n₁) calls := by
        rw [hq]
        exact hroomy
      obtain ⟨r', puts', n', hserve, h', hstored⟩ := ih h₁ hrest
      rw [hq] at hserve hstored
      refine ⟨r', puts', n', ?_, h', hstored⟩
      rw [RingBuffer.serve, hget]
      change (r₁.serve fuel calls).bind _ = _
      rw [hserve]
      rfl

end Stores

/-- **The ring buffer is a FIFO when used sequentially.** For every element type and every
sequence of calls on `RingBuffer::new()` that puts only while fewer than
`RINGBUF_LENGTH - 1` elements are stored: every call returns, after at most four accesses, and
the gets return what a queue returns. So the elements returned are the first ones put, in
order, and the others are those stored. -/
theorem ring_fifo (calls : List (RingCall T)) (fuel : ℕ) (hfuel : 4 ≤ fuel) (hroomy : Roomy [] calls) :
    ∃ r', (RingBuffer.new : RingBuffer T).serve fuel calls = .ok (some (r', (fifo [] calls).2)) ∧
      putsOf calls = (fifo [] calls).2.filterMap id ++ (fifo [] calls).1 := by
  obtain ⟨r', -, -, hserve, -, -⟩ := Stores.new.serve hfuel calls hroomy
  exact ⟨r', hserve, fifo_order [] calls⟩

theorem ring_fifo_two : ∃ r', (RingBuffer.new : RingBuffer ℕ).serve 4 [.put 1, .put 2, .get, .get, .get] =
    .ok (some (r', [some 1, some 2, none])) := by
  obtain ⟨r', hserve, -⟩ := ring_fifo [.put 1, .put 2, .get, .get, .get] 4 le_rfl (by simp [Roomy, RINGBUF_LENGTH])
  exact ⟨r', hserve⟩

end Urchin
