import Mathlib

/-!
# A stack in byte memory

Addresses are 64 bits wide and wrap, and words are stored with their low byte first.
`At m a cells` says that the memory holds a list of cells, of 8 or 16 bytes each, from
address `a` upwards: a stack is such a list, and `a` the stack pointer.

* `load_store_self`, `Cell.store_outside`: what a store changes.
* `At.push`, `At.storeAll`: a push puts a cell in front; a run of stores fills cells below
  the stack.
* `At.congr`: only the bytes of the cells matter.
-/

namespace Urchin.Stack

abbrev Memory := BitVec 64 → BitVec 8

/-- The `w` bits from address `a` on. -/
def load (w : ℕ) (m : Memory) (a : BitVec 64) : BitVec w :=
  BitVec.ofFnLE fun i => (m (a + BitVec.ofNat 64 (i / 8))).getLsbD (i % 8)

/-- The memory after the `w` bits of `v` are stored at address `a`. -/
def store {w : ℕ} (m : Memory) (a : BitVec 64) (v : BitVec w) : Memory := fun b =>
  if 8 * (b - a).toNat < w then v.extractLsb' (8 * (b - a).toNat) 8 else m b

variable {m m' : Memory} {a b : BitVec 64} {w : ℕ}

/-! ## Loads and stores -/

theorem add_ofNat_sub (a : BitVec 64) {k : ℕ} (hk : k < 2 ^ 64) : (a + BitVec.ofNat 64 k - a).toNat = k := by
  rw [add_sub_cancel_left, BitVec.toNat_ofNat, Nat.mod_eq_of_lt hk]

theorem load_congr (h : ∀ k, 8 * k < w → m (a + BitVec.ofNat 64 k) = m' (a + BitVec.ofNat 64 k)) :
    load w m a = load w m' a := by
  unfold load
  congr 1
  funext i
  rw [h (i / 8) (by omega)]

/-- A byte at offset `k` from the address of the store. -/
theorem store_add (m : Memory) (a : BitVec 64) (v : BitVec w) {k : ℕ} (hk : k < 2 ^ 64) :
    store m a v (a + BitVec.ofNat 64 k) =
      if 8 * k < w then v.extractLsb' (8 * k) 8 else m (a + BitVec.ofNat 64 k) := by
  simp only [store, add_ofNat_sub a hk]

theorem load_store_self (m : Memory) (a : BitVec 64) (v : BitVec w) (hw : w ≤ 2 ^ 64) :
    load w (store m a v) a = v := by
  refine BitVec.eq_of_getLsbD_eq fun i hi => ?_
  have hbyte : 8 * (i / 8) < w := by omega
  have hbit : 8 * (i / 8) + i % 8 = i := Nat.div_add_mod i 8
  unfold load
  rw [BitVec.getLsbD_ofFnLE, dif_pos hi, store_add m a v (by omega), if_pos hbyte, BitVec.getLsbD_extractLsb', hbit]
  simp [Nat.mod_lt i (show 0 < 8 by decide)]

/-- A load that reads none of the bytes of the store. -/
theorem load_store_apart (m : Memory) (a : BitVec 64) (v : BitVec w) {n : ℕ}
    (h : ∀ k, 8 * k < n → w ≤ 8 * (b + BitVec.ofNat 64 k - a).toNat) : load n (store m a v) b = load n m b := by
  apply load_congr
  intro k hk
  exact if_neg (Nat.not_lt.2 (h k hk))

/-- A part of what is loaded is loaded from there. -/
theorem load_extract (m : Memory) (a : BitVec 64) {k n : ℕ} (h : 8 * k + n ≤ w) :
    (load w m a).extractLsb' (8 * k) n = load n m (a + BitVec.ofNat 64 k) := by
  refine BitVec.eq_of_getLsbD_eq fun i hi => ?_
  unfold load
  rw [BitVec.getLsbD_extractLsb', BitVec.getLsbD_ofFnLE, BitVec.getLsbD_ofFnLE, dif_pos hi,
    dif_pos (show 8 * k + i < w by omega), add_assoc, ← BitVec.ofNat_add]
  have hdiv : (8 * k + i) / 8 = k + i / 8 := by omega
  have hmod : (8 * k + i) % 8 = i % 8 := by omega
  simp only [hdiv, hmod, hi, decide_true, Bool.true_and]

/-! ## Cells -/

inductive Cell where
  | quad (v : BitVec 64)
  | octo (v : BitVec 128)
  deriving DecidableEq

namespace Cell

/-- The bytes of the cell. -/
def size : Cell → ℕ
  | .quad _ => 8
  | .octo _ => 16

theorem size_le (c : Cell) : c.size ≤ 16 := by
  cases c with
  | quad v => exact (by decide : 8 ≤ 16)
  | octo v => exact le_refl 16

def store (m : Memory) (a : BitVec 64) : Cell → Memory
  | .quad v => Stack.store m a v
  | .octo v => Stack.store m a v

/-- The memory holds the cell at address `a`. -/
def In (m : Memory) (a : BitVec 64) : Cell → Prop
  | .quad v => load 64 m a = v
  | .octo v => load 128 m a = v

theorem In.congr {c : Cell} (h : c.In m a)
    (hm : ∀ k < c.size, m (a + BitVec.ofNat 64 k) = m' (a + BitVec.ofNat 64 k)) : c.In m' a := by
  cases c with
  | quad v => exact (load_congr fun k hk => (hm k (by simp only [size]; omega)).symm).trans h
  | octo v => exact (load_congr fun k hk => (hm k (by simp only [size]; omega)).symm).trans h

theorem in_store (m : Memory) (a : BitVec 64) (c : Cell) : c.In (c.store m a) a := by
  cases c with
  | quad v => exact load_store_self m a v (by norm_num)
  | octo v => exact load_store_self m a v (by norm_num)

/-- The bytes outside the cell are as before. -/
theorem store_outside (m : Memory) (c : Cell) (h : c.size ≤ (b - a).toNat) : c.store m a b = m b := by
  cases c with
  | quad v => exact if_neg (by simp only [size] at h; omega)
  | octo v => exact if_neg (by simp only [size] at h; omega)

theorem store_after (m : Memory) (a : BitVec 64) (c : Cell) {k : ℕ} (hk : c.size ≤ k) (hlt : k < 2 ^ 64) :
    c.store m a (a + BitVec.ofNat 64 k) = m (a + BitVec.ofNat 64 k) :=
  c.store_outside m (by rwa [add_ofNat_sub a hlt])

end Cell

/-- The bytes of the cells. -/
def size (cells : List Cell) : ℕ := (cells.map Cell.size).sum

@[simp] theorem size_nil : size [] = 0 := rfl

@[simp] theorem size_cons (c : Cell) (cells : List Cell) : size (c :: cells) = c.size + size cells := rfl

@[simp] theorem size_append (cells cells' : List Cell) : size (cells ++ cells') = size cells + size cells' := by
  simp [size]

theorem size_map {ι : Type*} {f : ι → Cell} {n : ℕ} (h : ∀ i, (f i).size = n) (l : List ι) :
    size (l.map f) = n * l.length := by
  induction l with
  | nil => rfl
  | cons i l ih => rw [List.map_cons, size_cons, ih, h, List.length_cons, Nat.mul_succ, add_comm]

theorem size_quads {ι : Type*} (f : ι → BitVec 64) (l : List ι) :
    size (l.map fun i => .quad (f i)) = 8 * l.length := by
  apply size_map
  exact fun _ => rfl

theorem size_octos {ι : Type*} (f : ι → BitVec 128) (l : List ι) :
    size (l.map fun i => .octo (f i)) = 16 * l.length := by
  apply size_map
  exact fun _ => rfl

/-- The memory holds the cells, one after the other, from address `a` on. -/
def At (m : Memory) (a : BitVec 64) : List Cell → Prop
  | [] => True
  | c :: cells => c.In m a ∧ At m (a + BitVec.ofNat 64 c.size) cells

theorem add_ofNat_add (a : BitVec 64) (i j : ℕ) :
    a + BitVec.ofNat 64 i + BitVec.ofNat 64 j = a + BitVec.ofNat 64 (i + j) := by
  rw [add_assoc, BitVec.ofNat_add]

theorem At.congr {cells : List Cell} (h : At m a cells)
    (hm : ∀ k < size cells, m (a + BitVec.ofNat 64 k) = m' (a + BitVec.ofNat 64 k)) : At m' a cells := by
  induction cells generalizing a with
  | nil => trivial
  | cons c cells ih =>
    rw [size_cons] at hm
    refine ⟨h.1.congr fun k hk => hm k (by omega), ih h.2 fun k hk => ?_⟩
    rw [add_ofNat_add]
    exact hm _ (by omega)

theorem at_append {cells cells' : List Cell} :
    At m a (cells ++ cells') ↔ At m a cells ∧ At m (a + BitVec.ofNat 64 (size cells)) cells' := by
  induction cells generalizing a with
  | nil => simp [At]
  | cons c cells ih =>
    rw [List.cons_append, size_cons, ← add_ofNat_add]
    simp only [At, ih, and_assoc]

/-- One of a list of words. -/
theorem At.quads {l : List (BitVec 64)} (h : At m a (l.map .quad)) {k : ℕ} (hk : k < l.length) :
    load 64 m (a + BitVec.ofNat 64 (8 * k)) = l[k] := by
  induction l generalizing a k with
  | nil => exact absurd hk (Nat.not_lt_zero k)
  | cons v l ih =>
    cases k with
    | zero =>
      have hfirst : load 64 m a = v := h.1
      rw [Nat.mul_zero, BitVec.add_zero]
      exact hfirst
    | succ k =>
      have hrest := ih h.2 (Nat.lt_of_succ_lt_succ hk)
      rw [add_ofNat_add] at hrest
      rw [List.getElem_cons_succ, ← hrest, Nat.mul_succ, Nat.add_comm]
      rfl

/-- What is above the first cell. -/
theorem At.tail {v : BitVec 64} {cells : List Cell} (h : At m a (.quad v :: cells)) : At m (a + 8) cells := h.2

/-- **A cell is stored below the others.** -/
theorem At.cons {c : Cell} {cells : List Cell} (h : At m (a + BitVec.ofNat 64 c.size) cells)
    (hsize : c.size + size cells ≤ 2 ^ 64) : At (c.store m a) a (c :: cells) := by
  refine ⟨c.in_store m a, h.congr fun k hk => ?_⟩
  rw [add_ofNat_add]
  exact (c.store_after m a (Nat.le_add_right ..) (by omega)).symm

/-- A push. -/
theorem At.push {cells : List Cell} (h : At m a cells) (hsize : 8 + size cells ≤ 2 ^ 64) (v : BitVec 64) :
    At (store m (a - 8) v) (a - 8) (.quad v :: cells) := by
  have hcell : At m (a - 8 + BitVec.ofNat 64 (Cell.quad v).size) cells := by
    simp only [Cell.size, BitVec.ofNat_eq_ofNat, sub_add_cancel]
    exact h
  exact hcell.cons hsize

/-- The cell in front is replaced. -/
theorem At.replace {c : Cell} {cells : List Cell} (h : At m a (c :: cells)) (c' : Cell) (hc : c'.size = c.size)
    (hsize : c.size + size cells ≤ 2 ^ 64) : At (c'.store m a) a (c' :: cells) :=
  At.cons (by rw [hc]; exact h.2) (by rw [hc]; exact hsize)

/-- The cells are stored one after the other, upwards. -/
def storeAll (m : Memory) (a : BitVec 64) : List Cell → Memory
  | [] => m
  | c :: cells => storeAll (c.store m a) (a + BitVec.ofNat 64 c.size) cells

theorem storeAll_outside {cells : List Cell} (h : size cells ≤ (b - a).toNat) : storeAll m a cells b = m b := by
  induction cells generalizing m a with
  | nil => rfl
  | cons c cells ih =>
    rw [size_cons] at h
    have hdist : (b - (a + BitVec.ofNat 64 c.size)).toNat = (b - a).toNat - c.size := by
      have hlt := (b - a).isLt
      have hc := c.size_le
      rw [← sub_sub, BitVec.toNat_sub, BitVec.toNat_ofNat, Nat.mod_eq_of_lt (show c.size < 2 ^ 64 by omega)]
      omega
    rw [storeAll, ih (by omega)]
    exact c.store_outside m (by omega)

/-- **A run of stores fills the cells below the others.** -/
theorem At.storeAll {cells rest : List Cell} (h : At m (a + BitVec.ofNat 64 (size cells)) rest)
    (hsize : size cells + size rest ≤ 2 ^ 64) : At (Stack.storeAll m a cells) a (cells ++ rest) := by
  induction cells generalizing m a with
  | nil => simpa [Stack.storeAll] using h
  | cons c cells ih =>
    rw [size_cons] at h hsize
    have hc := c.size_le
    refine ⟨(c.in_store m a).congr fun k hk => ?_, ih ?_ (by omega)⟩
    · -- the later stores are all above the first cell
      refine (storeAll_outside ?_).symm
      have hdist : (a + BitVec.ofNat 64 k - (a + BitVec.ofNat 64 c.size)).toNat = 2 ^ 64 - (c.size - k) := by
        rw [add_sub_add_left_eq_sub, BitVec.toNat_sub, BitVec.toNat_ofNat, BitVec.toNat_ofNat,
          Nat.mod_eq_of_lt (show c.size < 2 ^ 64 by omega), Nat.mod_eq_of_lt (show k < 2 ^ 64 by omega)]
        omega
      omega
    · rw [add_ofNat_add]
      refine h.congr fun k hk => ?_
      rw [add_ofNat_add]
      exact (c.store_after m a (by omega) (by omega)).symm

end Urchin.Stack
