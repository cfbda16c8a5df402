import Urchin.Spec.Interrupt

/-!
# Interrupts leave the interrupted code alone

The stack is a list of cells (`Cpu.Holds`): a push puts a cell in front, the block of
`movdqu`s fills sixteen cells, and the pops take off what the pushes put on. So the save
sequence leaves the registers as a list of cells at the address it passes on
(`Cpu.save_frame`), and the restore sequence, on a stack with these cells, puts them back
(`Cpu.restore_frame`). Together they are transparent (`interrupt_transparent`).

The frame is the same list read as the Rust structure. It declares the `xmm` fields upwards
and they are saved downwards, and the stubs treat vector 9 as one with an error code and
vector 8 as one without (`interrupt_frame_iff`).
-/

namespace Urchin

open Stack

namespace Cpu

variable {c : Cpu} {k : Kernel} {cells : List Cell}

/-- The instructions of a piece of code one after the other. -/
def execAll (c : Cpu) (k : Kernel) (code : List Instr) : Cpu := code.foldl (fun c i => c.exec k i) c

theorem execAll_cons (c : Cpu) (k : Kernel) (i : Instr) (code : List Instr) :
    c.execAll k (i :: code) = (c.exec k i).execAll k code := rfl

theorem execAll_append (c : Cpu) (k : Kernel) (code code' : List Instr) :
    c.execAll k (code ++ code') = (c.execAll k code).execAll k code' := List.foldl_append ..

/-- The cells on the stack, from the top. -/
def Holds (c : Cpu) (cells : List Cell) : Prop := At c.mem (c.reg .rsp) cells

/-! ## Stack instructions -/

@[simp] theorem set_self (c : Cpu) (r : Reg) (v : BitVec 64) : (c.set r v).reg r = v := by
  simp [set]

theorem set_ne (c : Cpu) {r r' : Reg} (h : r' ≠ r) (v : BitVec 64) : (c.set r v).reg r' = c.reg r' := by
  simp [set, Function.update_of_ne h]

@[simp] theorem set_mem (c : Cpu) (r : Reg) (v : BitVec 64) : (c.set r v).mem = c.mem := rfl

@[simp] theorem push_xmm (c : Cpu) (v : BitVec 64) : (c.push v).xmm = c.xmm := rfl

@[simp] theorem push_rsp (c : Cpu) (v : BitVec 64) : (c.push v).reg .rsp = c.reg .rsp - 8 := by
  simp [push, set]

/-- A push on a stack that ends `n` bytes below `top`: the bytes above `top` are as before. -/
theorem push_above {top : BitVec 64} {n i : ℕ} (h : c.reg .rsp = top - BitVec.ofNat 64 n) (v : BitVec 64)
    (hi : i + (n + 8) < 2 ^ 64) : (c.push v).mem (top + BitVec.ofNat 64 i) = c.mem (top + BitVec.ofNat 64 i) := by
  have hdist : top + BitVec.ofNat 64 i - (c.reg .rsp - 8) = BitVec.ofNat 64 (i + (n + 8)) := by
    have hn : top - BitVec.ofNat 64 n - 8 = top - BitVec.ofNat 64 (n + 8) := by
      rw [sub_sub, BitVec.ofNat_add]
      rfl
    rw [h, hn, BitVec.ofNat_add i]
    ring
  refine Cell.store_outside c.mem (.quad v) ?_
  rw [hdist, BitVec.toNat_ofNat, Nat.mod_eq_of_lt hi]
  exact (Nat.le_add_left 8 n).trans (Nat.le_add_left _ i)

theorem push_reg (c : Cpu) (v : BitVec 64) {r : Reg} (h : r ≠ .rsp) : (c.push v).reg r = c.reg r := c.set_ne h _

theorem Holds.push (h : c.Holds cells) (hsize : 8 + size cells ≤ 2 ^ 64) (v : BitVec 64) :
    (c.push v).Holds (.quad v :: cells) := by
  unfold Holds
  rw [push_rsp]
  exact At.push h hsize v

/-- A run of pushes. -/
theorem pushes {regs : List Reg} (hregs : .rsp ∉ regs) (h : c.Holds cells)
    (hsize : 8 * regs.length + size cells ≤ 2 ^ 64) :
    (c.execAll k (regs.map .push)).Holds ((regs.map fun r => .quad (c.reg r)).reverse ++ cells) ∧
      (c.execAll k (regs.map .push)).reg .rsp = c.reg .rsp - BitVec.ofNat 64 (8 * regs.length) ∧
      ∀ r ≠ Reg.rsp, (c.execAll k (regs.map .push)).reg r = c.reg r := by
  induction regs generalizing c cells with
  | nil => exact ⟨h, by simp [execAll], fun r _ => rfl⟩
  | cons r regs ih =>
    rw [List.mem_cons, not_or] at hregs
    rw [List.length_cons] at hsize
    obtain ⟨hholds, hrsp, hother⟩ := ih (c := c.push (c.reg r)) hregs.2 (h.push (by omega) (c.reg r))
      (by simp only [size_cons, Cell.size]; omega)
    have hsame : ∀ r' ∈ regs, (c.push (c.reg r)).reg r' = c.reg r' := by
      intro r' hr'
      refine c.push_reg _ ?_
      rintro rfl
      exact hregs.2 hr'
    have hcells : (regs.map fun r' => Cell.quad ((c.push (c.reg r)).reg r')) = regs.map fun r' => .quad (c.reg r') :=
      List.map_congr_left fun r' hr' => by rw [hsame r' hr']
    refine ⟨?_, ?_, fun r' hr' => ?_⟩
    · rw [hcells] at hholds
      rw [List.map_cons, List.map_cons, List.reverse_cons, List.append_assoc, List.singleton_append]
      exact hholds
    · refine hrsp.trans ?_
      rw [push_rsp, List.length_cons, Nat.mul_succ, BitVec.ofNat_add, sub_sub, add_comm (BitVec.ofNat 64 _)]
      rfl
    · exact (hother r' hr').trans (c.push_reg _ hr')

theorem pop_rsp (c : Cpu) {r : Reg} (hr : r ≠ .rsp) : (c.pop r).reg .rsp = c.reg .rsp + 8 := by
  rw [pop, set_ne _ hr.symm, set_self]

theorem pop_reg (c : Cpu) {r r' : Reg} (h : r' ≠ .rsp) (hr : r' ≠ r) : (c.pop r).reg r' = c.reg r' := by
  rw [pop, set_ne _ hr, set_ne _ h]

theorem Holds.pop {v : BitVec 64} (h : c.Holds (.quad v :: cells)) {r : Reg} (hr : r ≠ .rsp) :
    (c.pop r).Holds cells ∧ (c.pop r).reg r = v := by
  constructor
  · unfold Holds
    rw [c.pop_rsp hr]
    exact h.tail
  · rw [Cpu.pop, set_self]
    exact h.1

/-- A run of pops takes off the cells and sets the registers. -/
theorem pops {regs : List Reg} (hregs : .rsp ∉ regs) {saved : Reg → BitVec 64}
    (h : c.Holds ((regs.map fun r => .quad (saved r)) ++ cells)) :
    (c.execAll k (regs.map .pop)).Holds cells ∧ (c.execAll k (regs.map .pop)).xmm = c.xmm ∧
      (c.execAll k (regs.map .pop)).reg .rsp = c.reg .rsp + BitVec.ofNat 64 (8 * regs.length) ∧
      ∀ r ≠ .rsp, (c.execAll k (regs.map .pop)).reg r = if r ∈ regs then saved r else c.reg r := by
  induction regs generalizing c with
  | nil => exact ⟨h, rfl, by simp [execAll], fun r _ => rfl⟩
  | cons r regs ih =>
    rw [List.mem_cons, not_or] at hregs
    obtain ⟨htop, hval⟩ := Holds.pop (r := r) h (Ne.symm hregs.1)
    obtain ⟨hholds, hxmm, hrsp, hreg⟩ := ih hregs.2 htop
    refine ⟨hholds, hxmm, ?_, fun r' hr' => ?_⟩
    · refine hrsp.trans ?_
      rw [c.pop_rsp (Ne.symm hregs.1), List.length_cons, Nat.mul_succ, BitVec.ofNat_add, add_assoc,
        add_comm (BitVec.ofNat 64 _)]
      rfl
    · refine (hreg r' hr').trans ?_
      by_cases hin : r' ∈ regs
      · rw [if_pos hin, if_pos (List.mem_cons_of_mem r hin)]
      · rw [if_neg hin]
        by_cases he : r' = r
        · rw [he, hval, if_pos List.mem_cons_self]
        · rw [c.pop_reg hr' he, if_neg]
          rw [List.mem_cons, not_or]
          exact ⟨he, hin⟩

/-! ## The vector registers -/

/-- Stores of vector registers at increasing displacements. -/
def movdqusTo (disp : ℕ) : List (BitVec 4) → List Instr
  | [] => []
  | i :: is => .movdquTo i disp :: movdqusTo (disp + 16) is

def movdqusFrom (disp : ℕ) : List (BitVec 4) → List Instr
  | [] => []
  | i :: is => .movdquFrom disp i :: movdqusFrom (disp + 16) is

theorem execAll_movdqusTo (is : List (BitVec 4)) (disp : ℕ) :
    c.execAll k (movdqusTo disp is) = { c with
      mem := storeAll c.mem (c.reg .rsp + BitVec.ofNat 64 disp) (is.map fun i => .octo (c.xmm i)) } := by
  induction is generalizing c disp with
  | nil => rfl
  | cons i is ih =>
    refine (ih (disp + 16)).trans ?_
    simp only [exec, List.map_cons, storeAll, Cell.size, Cell.store, add_ofNat_add]

theorem execAll_movdqusFrom {is : List (BitVec 4)} {disp : ℕ} {saved : BitVec 4 → BitVec 128}
    (h : At c.mem (c.reg .rsp + BitVec.ofNat 64 disp) (is.map fun i => .octo (saved i))) :
    c.execAll k (movdqusFrom disp is) = { c with xmm := fun i => if i ∈ is then saved i else c.xmm i } := by
  induction is generalizing c disp with
  | nil => simp [execAll, movdqusFrom]
  | cons i is ih =>
    obtain ⟨hload, hrest⟩ := h
    simp only [Cell.size, add_ofNat_add] at hrest
    refine (ih (c := c.exec k (.movdquFrom disp i)) hrest).trans ?_
    simp only [exec]
    congr 1
    funext j
    by_cases hj : j ∈ is
    · rw [if_pos hj, if_pos (List.mem_cons_of_mem i hj)]
    · rw [if_neg hj]
      by_cases he : j = i
      · rw [he, Function.update_self, if_pos List.mem_cons_self]
        exact hload
      · rw [Function.update_of_ne he, if_neg]
        rw [List.mem_cons, not_or]
        exact ⟨he, hj⟩

/-! ## Saving -/

/-- The registers that are pushed, from the top of the stack. -/
def savedRegs : List Reg :=
  [.rax, .rbx, .rcx, .rdx, .rsi, .rbp, .r8, .r9, .r10, .r11, .r12, .r13, .r14, .r15]

def savedXmms : List (BitVec 4) := [15, 14, 13, 12, 11, 10, 9, 8, 7, 6, 5, 4, 3, 2, 1, 0]

theorem interruptSave_eq : interruptSave = ([.xchg .rdi, .sub 256] : List Instr) ++ movdqusTo 0 savedXmms ++
    savedRegs.reverse.map Instr.push ++ ([.mov .rsp .rsi, .pushImm 0] : List Instr) := rfl

theorem interruptRestore_eq : interruptRestore = ([.call, .pop .rax] : List Instr) ++ savedRegs.map Instr.pop ++
    movdqusFrom 0 savedXmms ++ ([.add 256, .pop .rdi, .add 8] : List Instr) := rfl

/-- What the save sequence leaves below the vector's place on the stack, which `rdi` takes. -/
def savedCells (c : Cpu) : List Cell :=
  savedRegs.map (fun r => .quad (c.reg r)) ++ (savedXmms.map (fun i => .octo (c.xmm i)) ++ [.quad (c.reg .rdi)])

theorem size_savedCells (c : Cpu) : size c.savedCells = 376 := by
  rw [savedCells, size_append, size_append, size_quads, size_octos]
  rfl

theorem ne_of_mem_savedRegs {r : Reg} (h : r ∈ savedRegs) : r ≠ .rsp ∧ r ≠ .rdi := by
  revert r
  decide

/-- `xchg` leaves `rdi` on the stack. -/
theorem xchg_rdi {v : BitVec 64} (h : c.Holds (.quad v :: cells)) (hsize : 8 + size cells ≤ 2 ^ 64) :
    (c.exec k (.xchg .rdi)).Holds (.quad (c.reg .rdi) :: cells) ∧ (c.exec k (.xchg .rdi)).reg .rdi = v ∧
      ∀ r ≠ .rdi, (c.exec k (.xchg .rdi)).reg r = c.reg r := by
  have hother : ∀ r ≠ .rdi, (c.exec k (.xchg .rdi)).reg r = c.reg r := fun r hr => c.set_ne hr _
  have hself : (c.exec k (.xchg .rdi)).reg .rdi = load 64 c.mem (c.reg .rsp) := by
    simp [exec, set]
  refine ⟨?_, hself.trans h.1, hother⟩
  unfold Holds
  rw [hother .rsp (by decide)]
  exact At.replace h (.quad (c.reg .rdi)) rfl hsize

/-- The cells of the vector registers, below the stack. -/
theorem save_xmms (h : c.Holds cells) (hsize : 256 + size cells ≤ 2 ^ 64) :
    ((c.exec k (.sub 256)).execAll k (movdqusTo 0 savedXmms)).Holds
        (savedXmms.map (fun i => .octo (c.xmm i)) ++ cells) ∧
      ((c.exec k (.sub 256)).execAll k (movdqusTo 0 savedXmms)).reg =
        Function.update c.reg .rsp (c.reg .rsp - 256) := by
  rw [execAll_movdqusTo]
  refine ⟨?_, rfl⟩
  have hrsp : (c.exec k (.sub 256)).reg .rsp + BitVec.ofNat 64 0 = c.reg .rsp - 256 := by
    simp [exec, set]
  have hcells : At c.mem (c.reg .rsp - 256 + BitVec.ofNat 64 (size (savedXmms.map fun i => .octo (c.xmm i)))) cells := by
    rw [size_octos, show c.reg .rsp - 256 + BitVec.ofNat 64 (16 * savedXmms.length) = c.reg .rsp from
      sub_add_cancel ..]
    exact h
  have hstore := hcells.storeAll (by rw [size_octos]; exact hsize)
  unfold Holds
  simp only [hrsp]
  exact hstore

/-- The save sequence in three steps: the vector registers, the registers, and the rest. -/
theorem execAll_interruptSave (c : Cpu) (k : Kernel) : ∃ c₁ c₂ c₃ : Cpu,
    c₁ = c.exec k (.xchg .rdi) ∧ c₂ = (c₁.exec k (.sub 256)).execAll k (movdqusTo 0 savedXmms) ∧
    c₃ = c₂.execAll k (savedRegs.reverse.map .push) ∧
    c.execAll k interruptSave = (c₃.set .rsi (c₃.reg .rsp)).push 0 := by
  refine ⟨_, _, _, rfl, rfl, rfl, ?_⟩
  rw [interruptSave_eq, execAll_append, execAll_append, execAll_append]
  simp only [execAll_cons]
  rfl

/-- **What the save sequence leaves.** The vector is in `rdi`, and `rsi` points to the cells
of the registers. -/
theorem save_frame {v : BitVec 64} (h : c.Holds (.quad v :: cells)) (hsize : 400 + size cells ≤ 2 ^ 64) :
    (c.execAll k interruptSave).reg .rdi = v ∧
      (c.execAll k interruptSave).reg .rsi = c.reg .rsp - 368 ∧
      (c.execAll k interruptSave).reg .rsp = c.reg .rsp - 368 - 8 ∧
      (c.execAll k interruptSave).Holds (.quad 0 :: (c.savedCells ++ cells)) := by
  obtain ⟨c₁, c₂, c₃, h₁, h₂, h₃, hrun⟩ := c.execAll_interruptSave k
  obtain ⟨htop, hrdi, hreg₁⟩ := xchg_rdi (k := k) h (by omega)
  have hxmm₁ : (c.exec k (.xchg .rdi)).xmm = c.xmm := rfl
  rw [← h₁] at htop hrdi hreg₁ hxmm₁
  obtain ⟨hxmms, hreg₂⟩ := save_xmms (k := k) htop (by simp only [size_cons, Cell.size]; omega)
  rw [← h₂] at hxmms hreg₂
  -- the pushes go below the vector registers
  have hsaved : 8 * savedRegs.reverse.length +
      size (savedXmms.map (fun i => .octo (c₁.xmm i)) ++ .quad (c.reg .rdi) :: cells) ≤ 2 ^ 64 := by
    rw [size_append, size_octos, size_cons, Cell.size]
    exact (by omega : 8 * 14 + (16 * 16 + (8 + size cells)) ≤ 2 ^ 64)
  obtain ⟨hholds, hrsp, hother⟩ := pushes (k := k) (by decide) hxmms hsaved
  rw [← h₃] at hholds hrsp hother
  have hrsp₂ : c₂.reg .rsp = c.reg .rsp - 256 := by
    rw [hreg₂, Function.update_self, hreg₁ .rsp (by decide)]
  have hreg : ∀ r, r ≠ .rsp → r ≠ .rdi → c₂.reg r = c.reg r := by
    intro r hr hr'
    rw [hreg₂, Function.update_of_ne hr, hreg₁ r hr']
  have hrsp₃ : c₃.reg .rsp = c.reg .rsp - 368 := by
    rw [hrsp, hrsp₂, sub_sub]
    rfl
  rw [hrun]
  refine ⟨?_, ?_, ?_, ?_⟩
  · rw [push_reg _ _ (by decide), set_ne _ (by decide), hother _ (by decide), hreg₂, Function.update_of_ne (by decide),
      hrdi]
  · rw [push_reg _ _ (by decide), set_self, hrsp₃]
  · rw [push_rsp, set_ne _ (by decide), hrsp₃]
  · have hcells : (savedRegs.reverse.map fun r => Cell.quad (c₂.reg r)).reverse ++
        (savedXmms.map (fun i => .octo (c₁.xmm i)) ++ .quad (c.reg .rdi) :: cells) = c.savedCells ++ cells := by
      have hregs : savedRegs.map (fun r => Cell.quad (c₂.reg r)) = savedRegs.map fun r => .quad (c.reg r) :=
        List.map_congr_left fun r hr => by rw [hreg r (ne_of_mem_savedRegs hr).1 (ne_of_mem_savedRegs hr).2]
      rw [List.map_reverse, List.reverse_reverse, hregs, hxmm₁]
      simp only [savedCells, List.append_assoc, List.singleton_append]
    rw [hcells] at hholds
    have hsize' : 8 + size (c.savedCells ++ cells) ≤ 2 ^ 64 := by
      rw [size_append, size_savedCells]
      omega
    exact Holds.push (c := c₃.set .rsi (c₃.reg .rsp)) hholds hsize' 0

/-! ## Restoring -/

/-- **What `interrupt_handler` is relied on for**, when `interrupt_common` calls it in the state
`call`: of the System V ABI, that it returns with the stack pointer above the return address; and
that it leaves the saved area, the 424 bytes of the frame its second argument points to, as it is.
Below the return address, and outside the stack, it may write what it likes. -/
structure Preserves (k : Kernel) (call : Cpu) : Prop where
  rsp : (k.handler (call.push k.returnAddress)).reg .rsp = call.reg .rsp
  saved : ∀ i < 424, (k.handler (call.push k.returnAddress)).mem (call.reg .rsi + BitVec.ofNat 64 i) =
    (call.push k.returnAddress).mem (call.reg .rsi + BitVec.ofNat 64 i)

/-- The call leaves the frame on the stack. -/
theorem call_frame (hk : Preserves k c) {w : BitVec 64} {frame : List Cell} (h : c.Holds (.quad w :: frame))
    (hrsi : c.reg .rsi = c.reg .rsp + 8) (hsize : size frame = 424) :
    ((c.exec k .call).pop .rax).Holds frame ∧
      ((c.exec k .call).pop .rax).reg .rsp = c.reg .rsi := by
  have htop : ((c.exec k .call).pop .rax).reg .rsp = c.reg .rsi := by
    rw [pop_rsp _ (by decide), exec, hk.rsp, hrsi]
  refine ⟨?_, htop⟩
  have hpush : At (c.push k.returnAddress).mem (c.reg .rsi) frame := by
    have hcells := (h.push (by rw [size_cons, hsize, Cell.size]; norm_num) k.returnAddress).2.2
    rw [push_rsp] at hcells
    simp only [Cell.size, BitVec.ofNat_eq_ofNat, sub_add_cancel] at hcells
    rw [hrsi]
    exact hcells
  unfold Holds
  rw [htop]
  exact hpush.congr fun i hi => (hk.saved i (by rwa [hsize] at hi)).symm

theorem execAll_interruptRestore (c : Cpu) (k : Kernel) : ∃ c₁ c₂ c₃ : Cpu,
    c₁ = (c.exec k .call).pop .rax ∧ c₂ = c₁.execAll k (savedRegs.map .pop) ∧
    c₃ = c₂.execAll k (movdqusFrom 0 savedXmms) ∧
    c.execAll k interruptRestore = ((c₃.exec k (.add 256)).pop .rdi).exec k (.add 8) := by
  refine ⟨_, _, _, rfl, rfl, rfl, ?_⟩
  rw [interruptRestore_eq, execAll_append, execAll_append, execAll_append]
  simp only [execAll_cons]
  rfl

theorem mem_savedXmms (i : BitVec 4) : i ∈ savedXmms := by
  revert i
  decide

theorem mem_savedRegs {r : Reg} (hrsp : r ≠ .rsp) (hrdi : r ≠ .rdi) : r ∈ savedRegs := by
  cases r with
  | rsp => exact absurd rfl hrsp
  | rdi => exact absurd rfl hrdi
  | _ => decide

/-- **What the restore sequence does**, on a stack with the cells of the registers of `s`. -/
theorem restore_frame (hk : Preserves k c) {s : Cpu} {w e : BitVec 64}
    (h : c.Holds (.quad w :: (s.savedCells ++ .quad e :: cells))) (hrsi : c.reg .rsi = c.reg .rsp + 8)
    (hsize : size cells = 40) :
    (∀ r ≠ .rsp, (c.execAll k interruptRestore).reg r = s.reg r) ∧
      (c.execAll k interruptRestore).xmm = s.xmm ∧
      (c.execAll k interruptRestore).reg .rsp = c.reg .rsi + 384 ∧
      (c.execAll k interruptRestore).Holds cells := by
  obtain ⟨c₁, c₂, c₃, h₁, h₂, h₃, hrun⟩ := c.execAll_interruptRestore k
  obtain ⟨hframe, hrsp₁⟩ := call_frame hk h hrsi (by rw [size_append, size_savedCells, size_cons, hsize, Cell.size])
  rw [← h₁] at hframe hrsp₁
  rw [savedCells, List.append_assoc] at hframe
  obtain ⟨hxmms, -, hrsp₂, hreg₂⟩ := pops (k := k) (by decide) hframe
  rw [← h₂] at hxmms hrsp₂ hreg₂
  rw [List.append_assoc, List.singleton_append] at hxmms
  -- the pops leave the vector registers at the top, and `rdi` and the error code above them
  obtain ⟨hload, hrest⟩ := at_append.1 hxmms
  have hload' : At c₂.mem (c₂.reg .rsp + BitVec.ofNat 64 0) (savedXmms.map fun i => .octo (s.xmm i)) := by
    simpa using hload
  have hc₃ : c₃ = { c₂ with xmm := s.xmm } := by
    rw [h₃, execAll_movdqusFrom hload']
    simp only [mem_savedXmms, if_true]
  have htop : (c₃.exec k (.add 256)).Holds (.quad (s.reg .rdi) :: .quad e :: cells) := by
    unfold Holds
    rw [exec, set_self, hc₃]
    rw [size_octos] at hrest
    exact hrest
  have hrsp₃ : (c₃.exec k (.add 256)).reg .rsp = c.reg .rsi + 112 + 256 := by
    rw [exec, set_self, hc₃, hrsp₂, hrsp₁]
    rfl
  obtain ⟨hholds, hrdi⟩ := htop.pop (r := .rdi) (by decide)
  have hrsp₄ : ((c₃.exec k (.add 256)).pop .rdi).reg .rsp = c.reg .rsi + 112 + 256 + 8 := by
    rw [pop_rsp _ (by decide), hrsp₃]
  rw [hrun]
  refine ⟨fun r hr => ?_, ?_, ?_, ?_⟩
  · rw [exec, set_ne _ hr]
    by_cases he : r = .rdi
    · rw [he]
      exact hrdi
    · rw [pop_reg _ hr he, exec, set_ne _ hr, hc₃]
      exact (hreg₂ r hr).trans (if_pos (mem_savedRegs hr he))
  · rw [hc₃]
    rfl
  · rw [exec, set_self, hrsp₄]
    simp only [add_assoc]
    rfl
  · unfold Holds
    rw [exec, set_self, set_mem]
    exact hholds.tail

/-! ## The words the processor pushes, and the stubs -/

/-- Where the processor starts to push. -/
def entryStack (c : Cpu) : BitVec 64 := c.reg .rsp &&& ~~~15

/-- The words the processor pushes, from the top of the stack. -/
def contextCells (c : Cpu) : List Cell :=
  [.quad c.rip, .quad (c.cs.setWidth 64), .quad c.rflags, .quad (c.reg .rsp), .quad (c.ss.setWidth 64)]

theorem size_contextCells (c : Cpu) : size c.contextCells = 40 := rfl

/-- An interrupt at which no error code is pushed. -/
theorem interrupt_none (h : At c.mem c.entryStack cells) (hsize : 40 + size cells ≤ 2 ^ 64) :
    (c.interrupt none).Holds (c.contextCells ++ cells) ∧ (c.interrupt none).reg .rsp = c.entryStack - 40 ∧
      (c.interrupt none).xmm = c.xmm ∧ ∀ r ≠ .rsp, (c.interrupt none).reg r = c.reg r := by
  have h₀ : (c.set .rsp c.entryStack).Holds cells := by
    unfold Holds
    rw [set_self]
    exact h
  have h₁ := h₀.push (by omega) (c.ss.setWidth 64)
  have h₂ := h₁.push (by rw [size_cons, Cell.size]; omega) (c.reg .rsp)
  have h₃ := h₂.push (by simp only [size_cons, Cell.size]; omega) c.rflags
  have h₄ := h₃.push (by simp only [size_cons, Cell.size]; omega) (c.cs.setWidth 64)
  have h₅ := h₄.push (by simp only [size_cons, Cell.size]; omega) c.rip
  refine ⟨h₅, ?_, rfl, fun r hr => ?_⟩
  · simp only [interrupt, maskInterrupts, push_rsp, set_self, sub_sub]
    rfl
  · simp only [interrupt, maskInterrupts, push_reg _ _ hr, set_ne _ hr]

theorem maskInterrupts_push (c : Cpu) (v : BitVec 64) : (c.push v).maskInterrupts = c.maskInterrupts.push v := rfl

theorem interrupt_some_eq (c : Cpu) (error : BitVec 64) : c.interrupt (some error) = (c.interrupt none).push error := by
  simp only [interrupt, maskInterrupts_push]

/-- With an error code, which is pushed last. -/
theorem interrupt_some (h : At c.mem c.entryStack cells) (hsize : 48 + size cells ≤ 2 ^ 64) (error : BitVec 64) :
    (c.interrupt (some error)).Holds (.quad error :: (c.contextCells ++ cells)) ∧
      (c.interrupt (some error)).xmm = c.xmm ∧ ∀ r ≠ .rsp, (c.interrupt (some error)).reg r = c.reg r := by
  obtain ⟨hholds, -, hxmm, hreg⟩ := interrupt_none h (by omega)
  have hsize' : 8 + size (c.contextCells ++ cells) ≤ 2 ^ 64 := by
    rw [size_append, size_contextCells]
    omega
  rw [interrupt_some_eq]
  exact ⟨hholds.push hsize' error, (push_xmm _ error).trans hxmm, fun r hr => (push_reg _ error hr).trans (hreg r hr)⟩

/-- The stub of a vector that it takes to have no error code. -/
theorem stub_zero (index : ℕ) (hindex : ¬ (index = 9 ∨ 10 ≤ index ∧ index ≤ 14 ∨ index = 17)) (h : c.Holds cells)
    (hsize : 16 + size cells ≤ 2 ^ 64) :
    (c.execAll k (interruptHandlers index)).Holds (.quad (BitVec.ofNat 64 index) :: .quad 0 :: cells) ∧
      (c.execAll k (interruptHandlers index)).reg .rsp = c.reg .rsp - 16 ∧
      (c.execAll k (interruptHandlers index)).xmm = c.xmm ∧
      ∀ r ≠ .rsp, (c.execAll k (interruptHandlers index)).reg r = c.reg r := by
  have hrun : c.execAll k (interruptHandlers index) =
      (c.maskInterrupts.push 0).push (BitVec.ofNat 64 index) := by
    rw [interruptHandlers, if_neg hindex]
    rfl
  have h₁ : (c.maskInterrupts.push 0).Holds (.quad 0 :: cells) := Holds.push (c := c.maskInterrupts) h (by omega) 0
  rw [hrun]
  refine ⟨h₁.push (by rw [size_cons, Cell.size]; omega) _, ?_, rfl, fun r hr => ?_⟩
  · rw [push_rsp, push_rsp, sub_sub]
    rfl
  · rw [push_reg _ _ hr, push_reg _ _ hr]
    rfl

theorem stub_error (index : ℕ) (hindex : index = 9 ∨ 10 ≤ index ∧ index ≤ 14 ∨ index = 17) (h : c.Holds cells)
    (hsize : 8 + size cells ≤ 2 ^ 64) :
    (c.execAll k (interruptHandlers index)).Holds (.quad (BitVec.ofNat 64 index) :: cells) ∧
      (c.execAll k (interruptHandlers index)).xmm = c.xmm ∧
      ∀ r ≠ .rsp, (c.execAll k (interruptHandlers index)).reg r = c.reg r := by
  have hrun : c.execAll k (interruptHandlers index) = c.maskInterrupts.push (BitVec.ofNat 64 index) := by
    rw [interruptHandlers, if_pos hindex]
    rfl
  rw [hrun]
  refine ⟨Holds.push (c := c.maskInterrupts) h hsize _, rfl, fun r hr => ?_⟩
  rw [push_reg _ _ hr]
  rfl

end Cpu

namespace Entry

theorem run_append (k : Kernel) (e : Entry) (code code' : List Instr) :
    e.run k (code ++ code') = (e.run k code).run k code' := List.foldl_append ..

theorem run_cons (k : Kernel) (e : Entry) (i : Instr) (code : List Instr) :
    e.run k (i :: code) = (e.step k i).run k code := rfl

theorem run_cpu (k : Kernel) (e : Entry) (code : List Instr) : (e.run k code).cpu = e.cpu.execAll k code := by
  induction code generalizing e with
  | nil => rfl
  | cons i code ih => exact ih (e.step k i)

theorem run_calls (k : Kernel) (e : Entry) {code : List Instr} (h : .call ∉ code) :
    (e.run k code).calls = e.calls := by
  induction code generalizing e with
  | nil => rfl
  | cons i code ih =>
    rw [List.mem_cons, not_or] at h
    refine (ih (e.step k i) h.2).trans ?_
    cases i with
    | call => exact absurd rfl h.1
    | _ => rfl

end Entry

/-! ## Transparency -/

theorem call_not_mem_stub (index : ℕ) : Instr.call ∉ interruptHandlers index := by
  unfold interruptHandlers
  split <;> simp

/-- `interrupt_common` makes one call, in the state its save sequence leaves. -/
theorem Entry.run_interruptCommon (k : Kernel) (c : Cpu) (index : ℕ) :
    (Entry.run k ⟨c, []⟩ (interruptHandlers index ++ interruptCommon)).calls =
      [(c.execAll k (interruptHandlers index)).execAll k interruptSave] := by
  have hsave : ((Entry.run k ⟨c, []⟩ (interruptHandlers index)).run k interruptSave).calls = [] := by
    rw [Entry.run_calls k _ (by decide), Entry.run_calls k _ (call_not_mem_stub index)]
  have hrestore : ∀ e : Entry, (e.run k interruptRestore).calls = e.calls ++ [e.cpu] := by
    intro e
    have hcall : interruptRestore = .call :: interruptRestore.tail := rfl
    rw [hcall, Entry.run_cons, Entry.run_calls k _ (by decide)]
    rfl
  rw [interruptCommon, Entry.run_append, Entry.run_append, hrestore, hsave, Entry.run_cpu, Entry.run_cpu]
  rfl

theorem and_not_fifteen (x : BitVec 64) : (x &&& ~~~15).toNat % 16 = 0 := by
  have hand : (x &&& ~~~15) &&& 15 = 0 := by
    rw [BitVec.and_assoc, show (~~~15 &&& 15 : BitVec 64) = 0 by decide]
    exact BitVec.and_zero
  have hnat := congrArg BitVec.toNat hand
  rw [BitVec.toNat_and] at hnat
  exact (Nat.and_two_pow_sub_one_eq_mod (x &&& ~~~15).toNat 4).symm.trans hnat

/-- At the call, 432 bytes are on the stack. -/
theorem Cpu.call_aligned (c : Cpu) : (c.entryStack - 432) % 16 = 0 := by
  have haligned := and_not_fifteen (c.reg .rsp)
  refine BitVec.eq_of_toNat_eq ?_
  rw [BitVec.toNat_umod, BitVec.toNat_sub, Cpu.entryStack]
  generalize (c.reg .rsp &&& ~~~15).toNat = stack at haligned
  change (2 ^ 64 - 432 + stack) % 2 ^ 64 % 16 = 0
  omega

theorem Cpu.savedCells_congr {c c' : Cpu} (hreg : ∀ r ≠ .rsp, c.reg r = c'.reg r) (hxmm : c.xmm = c'.xmm) :
    c.savedCells = c'.savedCells := by
  have hregs : savedRegs.map (fun r => Cell.quad (c.reg r)) = savedRegs.map fun r => .quad (c'.reg r) :=
    List.map_congr_left fun r hr => by rw [hreg r (ne_of_mem_savedRegs hr).1]
  simp only [savedCells, hregs, hxmm, hreg .rdi (by decide)]

/-- **The call**, at a vector from 32 on: the vector is in `rdi`, `rsi` points to the saved
registers, and 432 bytes are on the stack. -/
theorem interrupt_call (k : Kernel) (c : Cpu) (error : BitVec 64) {index : ℕ} (hlow : 32 ≤ index) : ∃ call,
    Entry.run k ⟨c.interrupt (errorCode index error), []⟩ (interruptHandlers index ++ interruptCommon) =
      ⟨call.execAll k interruptRestore, [call]⟩ ∧
    call.reg .rdi = BitVec.ofNat 64 index ∧ call.reg .rsi = call.reg .rsp + 8 ∧
    call.reg .rsp = (c.interrupt (errorCode index error)).reg .rsp - 392 ∧ call.reg .rsp = c.entryStack - 432 ∧
    call.Holds (.quad 0 :: (c.savedCells ++ .quad 0 :: c.contextCells)) := by
  have hnone : errorCode index error = none := by
    rw [errorCode, if_neg]
    unfold HasErrorCode
    omega
  have hnil : At c.mem c.entryStack [] := trivial
  obtain ⟨hcontext, hrsp₀, hxmm₀, hreg₀⟩ := Cpu.interrupt_none hnil (by rw [size_nil]; norm_num)
  rw [List.append_nil] at hcontext
  rw [hnone]
  obtain ⟨htop, hrsp₁, hxmm₁, hreg₁⟩ := Cpu.stub_zero (k := k) index (by omega) hcontext
    (by rw [Cpu.size_contextCells]; norm_num)
  obtain ⟨hrdi, hrsi, hrsp₂, hsaved⟩ := Cpu.save_frame (k := k) htop
    (by rw [size_cons, Cpu.size_contextCells, Cell.size]; norm_num)
  -- the stub changes no register but `rsp`, so that the saved ones are those at the interruption
  rw [Cpu.savedCells_congr (fun r hr => (hreg₁ r hr).trans (hreg₀ r hr)) (hxmm₁.trans hxmm₀)] at hsaved
  refine ⟨_, ?_, hrdi, ?_, ?_, ?_, hsaved⟩
  · refine congrArg₂ Entry.mk ?_ (Entry.run_interruptCommon k _ index)
    exact (Entry.run_cpu k _ _).trans (by simp only [interruptCommon, Cpu.execAll_append])
  · rw [hrsi, hrsp₂, sub_add_cancel]
  · rw [hrsp₂, hrsp₁]
    ring
  · rw [hrsp₂, hrsp₁, hrsp₀]
    ring

/-- **Interrupts are transparent.** For every state of the registers and the memory, at every
vector from 32 on: `interrupt_common` reaches `iretq` with every general register but
`rsp`, and every `xmm` register, as it was, with `rsp` pointing to the `rip` the processor
pushed, and the words above it unchanged. On the way it calls `interrupt_handler` once, with
the vector in `dil` and the stack aligned to 16 bytes; nothing but this call is asked of the
handler. -/
theorem interrupt_transparent (k : Kernel) (c : Cpu) (error : BitVec 64) (index : ℕ) (hlow : 32 ≤ index) :
    let entered := c.interrupt (errorCode index error)
    let left := Entry.run k ⟨entered, []⟩ (interruptHandlers index ++ interruptCommon)
    (∀ call ∈ left.calls, Cpu.Preserves k call) →
      (∀ r ≠ Reg.rsp, left.cpu.reg r = c.reg r) ∧ left.cpu.xmm = c.xmm ∧
      left.cpu.reg .rsp = entered.reg .rsp ∧ load 64 left.cpu.mem (left.cpu.reg .rsp) = c.rip ∧
      left.cpu.Holds c.contextCells ∧
      ∃ call, left.calls = [call] ∧ (call.reg .rdi).setWidth 8 = BitVec.ofNat 8 index ∧ call.reg .rsp % 16 = 0 := by
  intro entered left hk
  obtain ⟨call, hrun, hrdi, hrsi, hrsp₁, hrsp₂, hholds⟩ := interrupt_call k c error hlow
  have hleft : left = ⟨call.execAll k interruptRestore, [call]⟩ := hrun
  have hcall : Cpu.Preserves k call := hk call (by rw [hleft]; exact List.mem_singleton_self call)
  obtain ⟨hreg, hxmm, hrsp, hcontext⟩ := Cpu.restore_frame hcall hholds hrsi c.size_contextCells
  rw [hleft]
  refine ⟨hreg, hxmm, ?_, hcontext.1, hcontext, call, rfl, ?_, ?_⟩
  · rw [hrsp, hrsi, hrsp₁]
    ring
  · rw [hrdi]
    exact BitVec.setWidth_ofNat_of_le (by decide) index
  · rw [hrsp₂]
    exact c.call_aligned

/-- A handler with a stack frame: it pushes `rbp` and `rbx` and a local of its own, uses `rax`,
`rcx`, `rbx`, `rbp` and `xmm0`, puts back `rbx` and `rbp`, and returns. -/
def idleHandler (c : Cpu) : Cpu :=
  let entered := (c.push (c.reg .rbp)).push (c.reg .rbx)
  let framed := (entered.set .rbp (entered.reg .rsp)).push (c.reg .rdi)
  let used := (((framed.set .rax 1).set .rcx 2).set .rbx (c.reg .rsi)).set .rsp (framed.reg .rbp)
  let left := ({ used with xmm := Function.update c.xmm 0 3 }.pop .rbx).pop .rbp
  left.set .rsp (left.reg .rsp + 8)

/-- It writes below its return address only. -/
theorem idleHandler_preserves {returnAddress : BitVec 64} {call : Cpu} (hrsi : call.reg .rsi = call.reg .rsp + 8) :
    Cpu.Preserves ⟨idleHandler, returnAddress⟩ call := by
  constructor
  · simp only [idleHandler, Cpu.set_self, Cpu.pop_rsp, ne_eq, reduceCtorEq, not_false_eq_true, Cpu.push_reg,
      Cpu.push_rsp]
    ring
  · intro i hi
    let entry := call.push returnAddress
    let entered := (entry.push (entry.reg .rbp)).push (entry.reg .rbx)
    have h₁ : entry.reg .rsp = call.reg .rsp - BitVec.ofNat 64 8 := call.push_rsp _
    have h₂ : (entry.push (entry.reg .rbp)).reg .rsp = call.reg .rsp - BitVec.ofNat 64 16 := by
      rw [Cpu.push_rsp, h₁, sub_sub]
      rfl
    have h₃ : (entered.set .rbp (entered.reg .rsp)).reg .rsp = call.reg .rsp - BitVec.ofNat 64 24 := by
      rw [Cpu.set_ne _ (by decide), Cpu.push_rsp, h₂, sub_sub]
      rfl
    have habove : call.reg .rsi + BitVec.ofNat 64 i = call.reg .rsp + BitVec.ofNat 64 (8 + i) := by
      rw [hrsi, BitVec.ofNat_add, add_assoc]
      rfl
    rw [habove]
    exact ((Cpu.push_above h₃ _ (by omega)).trans (Cpu.push_above h₂ _ (by omega))).trans
      (Cpu.push_above h₁ _ (by omega))

theorem interrupt_transparent_timer :
    let c : Cpu := ⟨fun _ => 0x7008, fun i => i.setWidth 128, fun _ => 0, 0x1234, 8, 16, 0x202⟩
    let left := Entry.run ⟨idleHandler, 0x1000⟩ ⟨c.interrupt none, []⟩ (interruptHandlers 50 ++ interruptCommon)
    left.cpu.reg .rax = 0x7008 ∧ left.cpu.xmm 0 = 0 ∧ load 64 left.cpu.mem (left.cpu.reg .rsp) = 0x1234 := by
  intro c left
  have hk : ∀ call ∈ left.calls, Cpu.Preserves ⟨idleHandler, 0x1000⟩ call := by
    intro call hcall
    obtain ⟨called, hrun, -, hrsi, -⟩ := interrupt_call ⟨idleHandler, 0x1000⟩ c 0 (show 32 ≤ 50 by decide)
    have hcalls : left.calls = [called] := congrArg Entry.calls hrun
    rw [hcalls, List.mem_singleton] at hcall
    exact idleHandler_preserves (hcall ▸ hrsi)
  obtain ⟨hreg, hxmm, -, hrip, -⟩ := interrupt_transparent ⟨idleHandler, 0x1000⟩ c 0 50 (by decide) hk
  exact ⟨hreg .rax (by decide), congrFun hxmm 0, hrip⟩

/-! ## The frame -/

/-- What the fields should show: the registers and the words pushed at the interruption. -/
def Cpu.context (c : Cpu) (error : BitVec 64) : FrameField → Cell
  | .reg r => .quad (c.reg r)
  | .xmm i => .octo (c.xmm i)
  | .error => .quad error
  | .rip => .quad c.rip
  | .cs => .quad (c.cs.setWidth 64)
  | .rflags => .quad c.rflags
  | .rsp => .quad (c.reg .rsp)
  | .ss => .quad (c.ss.setWidth 64)

/-- The six words above the saved registers. -/
structure FrameWords where
  error : BitVec 64
  rip : BitVec 64
  cs : BitVec 64
  rflags : BitVec 64
  rsp : BitVec 64
  ss : BitVec 64

def FrameWords.cells (w : FrameWords) : List Cell :=
  [.quad w.error, .quad w.rip, .quad w.cs, .quad w.rflags, .quad w.rsp, .quad w.ss]

/-- What the fields show, with these words above the saved registers: the `xmm` registers come
in the other order. -/
def Cpu.shown (c : Cpu) (w : FrameWords) : FrameField → Cell
  | .reg r => .quad (c.reg r)
  | .xmm i => .octo (c.xmm (15 - i))
  | .error => .quad w.error
  | .rip => .quad w.rip
  | .cs => .quad w.cs
  | .rflags => .quad w.rflags
  | .rsp => .quad w.rsp
  | .ss => .quad w.ss

/-- The words at a vector. The stub of vector 8 pushes a word although the processor has pushed
the error code, and that of vector 9 pushes none although it has not. -/
def Cpu.frameWords (c : Cpu) (error : BitVec 64) (index : ℕ) : FrameWords :=
  if index = 8 then ⟨0, error, c.rip, c.cs.setWidth 64, c.rflags, c.reg .rsp⟩
  else if index = 9 then
    ⟨c.rip, c.cs.setWidth 64, c.rflags, c.reg .rsp, c.ss.setWidth 64, load 64 c.mem c.entryStack⟩
  else
    ⟨if HasErrorCode index then error else 0, c.rip, c.cs.setWidth 64, c.rflags, c.reg .rsp, c.ss.setWidth 64⟩

namespace InterruptFrame

/-- **A list of cells read as the structure.** A field is where the cells before it end. -/
theorem in_offset {m : Memory} {frame : BitVec 64} {val : FrameField → Cell} (hval : ∀ f, (val f).size = bytes f)
    (h : At m frame (fields.map val)) {f : FrameField} (hf : f ∈ fields) :
    (val f).In m (frame + BitVec.ofNat 64 (offset f)) := by
  obtain ⟨before, rest, hfields, hnot⟩ := List.eq_append_cons_of_mem hf
  have hbefore : fields.takeWhile (· ≠ f) = before := by
    rw [hfields, List.takeWhile_append_of_pos, List.takeWhile_cons_of_neg (by simp), List.append_nil]
    intro g hg
    exact decide_eq_true fun he => hnot (he ▸ hg)
  have hsize : ∀ l : List FrameField, size (l.map val) = (l.map bytes).sum := by
    intro l
    induction l with
    | nil => rfl
    | cons g l ih => rw [List.map_cons, size_cons, hval, ih, List.map_cons, List.sum_cons]
  rw [hfields, List.map_append, at_append, hsize, List.map_cons] at h
  rw [offset, hbefore]
  exact h.2.1

theorem get_eq {m : Memory} {frame : BitVec 64} {val : FrameField → Cell} (hval : ∀ f, (val f).size = bytes f)
    (h : At m frame (fields.map val)) {f : FrameField} (hf : f ∈ fields) : get m frame f = val f := by
  have hin := in_offset hval h hf
  have hsize := hval f
  cases hf : val f with
  | quad v =>
    rw [hf] at hin hsize
    cases f with
    | xmm i => exact absurd hsize (by decide : 8 ≠ 16)
    | _ => exact congrArg Cell.quad hin
  | octo v =>
    rw [hf] at hin hsize
    cases f with
    | xmm i => exact congrArg Cell.octo hin
    | _ => exact absurd hsize (by decide : 16 ≠ 8)

end InterruptFrame

namespace Cpu

theorem shown_size (c : Cpu) (w : FrameWords) (f : FrameField) : (c.shown w f).size = InterruptFrame.bytes f := by
  cases f <;> rfl

theorem savedCells_append (c : Cpu) (w : FrameWords) :
    c.savedCells ++ w.cells = InterruptFrame.fields.map (c.shown w) := rfl

/-- **What `interrupt_handler` sees**, with these words above the vector's place. -/
theorem frame_get {c₀ : Cpu} {k : Kernel} {more : List Cell} {index : BitVec 64} {w : FrameWords}
    (h : c₀.Holds (.quad index :: (w.cells ++ more))) (hmore : size more ≤ 8) {f : FrameField}
    (hf : f ∈ InterruptFrame.fields) :
    InterruptFrame.get ((c₀.execAll k interruptSave).push k.returnAddress).mem
        ((c₀.execAll k interruptSave).reg .rsi) f = c₀.shown w f := by
  have hwords : size w.cells = 48 := rfl
  obtain ⟨-, hrsi, hrsp, hsaved⟩ := save_frame (k := k) h (by rw [size_append, hwords]; omega)
  generalize c₀.execAll k interruptSave = saved at *
  have hpush := hsaved.push (by
    rw [size_cons, size_append, size_savedCells, size_append, hwords, Cell.size]
    omega) k.returnAddress
  have hframe := hpush.tail.tail
  rw [push_rsp, sub_add_cancel, hrsp, sub_add_cancel, ← hrsi, ← List.append_assoc, savedCells_append] at hframe
  exact InterruptFrame.get_eq (c₀.shown_size w) (at_append.1 hframe).1 hf

theorem shown_congr {c c₀ : Cpu} (hreg : ∀ r ≠ .rsp, c₀.reg r = c.reg r) (hxmm : c₀.xmm = c.xmm) (w : FrameWords)
    {f : FrameField} (hf : f ∈ InterruptFrame.fields) : c₀.shown w f = c.shown w f := by
  cases f with
  | reg r =>
    refine congrArg Cell.quad (hreg r ?_)
    rintro rfl
    exact absurd hf (by decide)
  | xmm i => exact congrArg Cell.octo (congrFun hxmm (15 - i))
  | _ => rfl

/-- The stack after the stub of a vector. -/
theorem stub_frame (c : Cpu) (k : Kernel) (error : BitVec 64) (index : ℕ) : ∃ more, size more ≤ 8 ∧
    ((c.interrupt (errorCode index error)).execAll k (interruptHandlers index)).Holds
      (.quad (BitVec.ofNat 64 index) :: ((c.frameWords error index).cells ++ more)) ∧
    ((c.interrupt (errorCode index error)).execAll k (interruptHandlers index)).xmm = c.xmm ∧
    ∀ r ≠ .rsp, ((c.interrupt (errorCode index error)).execAll k (interruptHandlers index)).reg r = c.reg r := by
  have hnil : At c.mem c.entryStack [] := trivial
  by_cases h8 : index = 8
  · -- the processor pushes an error code, and the stub a zero
    obtain ⟨hholds, hxmm, hreg⟩ := interrupt_some hnil (by rw [size_nil]; norm_num) error
    obtain ⟨hstub, -, hxmm', hreg'⟩ := stub_zero (k := k) index (by omega) hholds
      (by rw [size_cons, size_append, size_contextCells, size_nil, Cell.size]; norm_num)
    rw [errorCode, if_pos (.inl h8), frameWords, if_pos h8]
    exact ⟨[.quad (c.ss.setWidth 64)], le_rfl, hstub, hxmm'.trans hxmm, fun r hr => (hreg' r hr).trans (hreg r hr)⟩
  · by_cases h9 : index = 9
    · -- neither pushes a word
      have habove : At c.mem c.entryStack [.quad (load 64 c.mem c.entryStack)] := ⟨rfl, trivial⟩
      obtain ⟨hholds, -, hxmm, hreg⟩ := interrupt_none habove (by rw [size_cons, size_nil, Cell.size]; norm_num)
      obtain ⟨hstub, hxmm', hreg'⟩ := stub_error (k := k) index (.inl h9) hholds
        (by rw [size_append, size_contextCells, size_cons, size_nil, Cell.size]; norm_num)
      have hcode : ¬ HasErrorCode index := by
        unfold HasErrorCode
        omega
      rw [errorCode, if_neg hcode, frameWords, if_neg h8, if_pos h9]
      exact ⟨[], Nat.zero_le 8, hstub, hxmm'.trans hxmm, fun r hr => (hreg' r hr).trans (hreg r hr)⟩
    · -- the stub and the processor agree
      rw [errorCode, frameWords, if_neg h8, if_neg h9]
      by_cases hcode : HasErrorCode index
      · obtain ⟨hholds, hxmm, hreg⟩ := interrupt_some hnil (by rw [size_nil]; norm_num) error
        obtain ⟨hstub, hxmm', hreg'⟩ := stub_error (k := k) index
          (by unfold HasErrorCode at hcode; omega) hholds
          (by rw [size_cons, size_append, size_contextCells, size_nil, Cell.size]; norm_num)
        rw [if_pos hcode, if_pos hcode]
        exact ⟨[], Nat.zero_le 8, hstub, hxmm'.trans hxmm, fun r hr => (hreg' r hr).trans (hreg r hr)⟩
      · obtain ⟨hholds, -, hxmm, hreg⟩ := interrupt_none hnil (by rw [size_nil]; norm_num)
        obtain ⟨hstub, -, hxmm', hreg'⟩ := stub_zero (k := k) index
          (by unfold HasErrorCode at hcode; omega) hholds
          (by rw [size_append, size_contextCells, size_nil]; norm_num)
        rw [if_neg hcode, if_neg hcode]
        exact ⟨[], Nat.zero_le 8, hstub, hxmm'.trans hxmm, fun r hr => (hreg' r hr).trans (hreg r hr)⟩

/-- Every field shows what it should, but perhaps the error code. -/
theorem shown_eq_context_iff (c : Cpu) (w : FrameWords) (error : BitVec 64) (P : Prop) :
    (∀ f ∈ InterruptFrame.fields, (f = .error → P) → c.shown w f = c.context error f) ↔
      (∀ i, c.xmm i = c.xmm (15 - i)) ∧ (P → w.error = error) ∧ w.rip = c.rip ∧ w.cs = c.cs.setWidth 64 ∧
        w.rflags = c.rflags ∧ w.rsp = c.reg .rsp ∧ w.ss = c.ss.setWidth 64 := by
  constructor
  · intro h
    refine ⟨fun i => ?_, fun hp => ?_, ?_, ?_, ?_, ?_, ?_⟩
    · have hi : FrameField.xmm i ∈ InterruptFrame.fields := by
        revert i
        decide
      exact (Cell.octo.inj (h (.xmm i) hi fun he => nomatch he)).symm
    · exact Cell.quad.inj (h .error (by decide) fun _ => hp)
    · exact Cell.quad.inj (h .rip (by decide) fun he => nomatch he)
    · exact Cell.quad.inj (h .cs (by decide) fun he => nomatch he)
    · exact Cell.quad.inj (h .rflags (by decide) fun he => nomatch he)
    · exact Cell.quad.inj (h .rsp (by decide) fun he => nomatch he)
    · exact Cell.quad.inj (h .ss (by decide) fun he => nomatch he)
  · rintro ⟨hxmm, herror, hrip, hcs, hrflags, hrsp, hss⟩ f - hf
    cases f with
    | reg r => rfl
    | xmm i => exact congrArg Cell.octo (hxmm i).symm
    | error => exact congrArg Cell.quad (herror (hf rfl))
    | rip => exact congrArg Cell.quad hrip
    | cs => exact congrArg Cell.quad hcs
    | rflags => exact congrArg Cell.quad hrflags
    | rsp => exact congrArg Cell.quad hrsp
    | ss => exact congrArg Cell.quad hss

/-- **When the words above the registers are those the processor pushed.** -/
theorem frameWords_eq_iff (c : Cpu) (error : BitVec 64) (index : ℕ) :
    ((HasErrorCode index → (c.frameWords error index).error = error) ∧ (c.frameWords error index).rip = c.rip ∧
      (c.frameWords error index).cs = c.cs.setWidth 64 ∧ (c.frameWords error index).rflags = c.rflags ∧
      (c.frameWords error index).rsp = c.reg .rsp ∧ (c.frameWords error index).ss = c.ss.setWidth 64) ↔
    (index = 8 → error = 0 ∧ c.rip = 0 ∧ c.cs.setWidth 64 = 0#64 ∧ c.rflags = 0 ∧ c.reg .rsp = 0 ∧
      c.ss.setWidth 64 = 0#64) ∧
    (index = 9 → c.rip = c.cs.setWidth 64 ∧ c.cs.setWidth 64 = c.rflags ∧ c.rflags = c.reg .rsp ∧
      c.reg .rsp = c.ss.setWidth 64 ∧ c.ss.setWidth 64 = load 64 c.mem c.entryStack) := by
  by_cases h8 : index = 8
  · -- each word is the one below it
    have h9 : index ≠ 9 := by omega
    have hwords : c.frameWords error index = ⟨0, error, c.rip, c.cs.setWidth 64, c.rflags, c.reg .rsp⟩ := if_pos h8
    rw [hwords]
    constructor
    · rintro ⟨h1, h2, h3, h4, h5, h6⟩
      have herror : error = 0 := (h1 (.inl h8)).symm
      have hrip : c.rip = 0 := h2.symm.trans herror
      have hcs : c.cs.setWidth 64 = 0#64 := h3.symm.trans hrip
      have hrflags : c.rflags = 0 := h4.symm.trans hcs
      have hrsp : c.reg .rsp = 0 := h5.symm.trans hrflags
      exact ⟨fun _ => ⟨herror, hrip, hcs, hrflags, hrsp, h6.symm.trans hrsp⟩, fun he => absurd he h9⟩
    · rintro ⟨h, -⟩
      obtain ⟨herror, hrip, hcs, hrflags, hrsp, hss⟩ := h h8
      exact ⟨fun _ => herror.symm, herror.trans hrip.symm, hrip.trans hcs.symm, hcs.trans hrflags.symm,
        hrflags.trans hrsp.symm, hrsp.trans hss.symm⟩
  · by_cases h9 : index = 9
    · -- each word is the one above it
      have hcode : ¬ HasErrorCode index := by
        unfold HasErrorCode
        omega
      have hwords : c.frameWords error index = ⟨c.rip, c.cs.setWidth 64, c.rflags, c.reg .rsp, c.ss.setWidth 64,
          load 64 c.mem c.entryStack⟩ := by
        rw [frameWords, if_neg h8, if_pos h9]
      rw [hwords]
      constructor
      · rintro ⟨-, h2, h3, h4, h5, h6⟩
        exact ⟨fun he => absurd he h8, fun _ => ⟨h2.symm, h3.symm, h4.symm, h5.symm, h6.symm⟩⟩
      · rintro ⟨-, h⟩
        obtain ⟨h2, h3, h4, h5, h6⟩ := h h9
        exact ⟨fun hc => absurd hc hcode, h2.symm, h3.symm, h4.symm, h5.symm, h6.symm⟩
    · rw [frameWords, if_neg h8, if_neg h9]
      constructor
      · exact fun _ => ⟨fun he => absurd he h8, fun he => absurd he h9⟩
      · exact fun _ => ⟨fun hcode => if_pos hcode, rfl, rfl, rfl, rfl, rfl⟩

/-- What each field shows at the call of `interrupt_handler`. -/
theorem call_frame_get (k : Kernel) (c : Cpu) (error : BitVec 64) (index : ℕ) : ∃ call,
    (Entry.run k ⟨c.interrupt (errorCode index error), []⟩ (interruptHandlers index ++ interruptCommon)).calls =
      [call] ∧
    ∀ f ∈ InterruptFrame.fields, InterruptFrame.get (call.push k.returnAddress).mem (call.reg .rsi) f =
      c.shown (c.frameWords error index) f := by
  obtain ⟨more, hmore, hholds, hxmm, hreg⟩ := c.stub_frame k error index
  refine ⟨_, Entry.run_interruptCommon k _ index, fun f hf => ?_⟩
  rw [frame_get hholds hmore hf]
  exact shown_congr hreg hxmm _ hf

end Cpu

/-- **When the frame shows the interrupted context.** For every state and every vector: each
field of the frame that `interrupt_common` passes on is the register, or the word the
processor pushed, at the interruption, if and only if the `xmm` registers read the same in
both orders, and the vector is neither 8 nor 9 (or all the words one could tell apart there
are equal). At vector 8 the fields from `error` on are shifted down by one word, at
vector 9 up by one. -/
theorem interrupt_frame_iff (k : Kernel) (c : Cpu) (error : BitVec 64) (index : ℕ) : ∃ call,
    (Entry.run k ⟨c.interrupt (errorCode index error), []⟩ (interruptHandlers index ++ interruptCommon)).calls =
      [call] ∧
    ((∀ f ∈ InterruptFrame.fields, (f = .error → HasErrorCode index) →
        InterruptFrame.get (call.push k.returnAddress).mem (call.reg .rsi) f = c.context error f) ↔
      (∀ i, c.xmm i = c.xmm (15 - i)) ∧
      (index = 8 → error = 0 ∧ c.rip = 0 ∧ c.cs.setWidth 64 = 0#64 ∧ c.rflags = 0 ∧ c.reg .rsp = 0 ∧
        c.ss.setWidth 64 = 0#64) ∧
      (index = 9 → c.rip = c.cs.setWidth 64 ∧ c.cs.setWidth 64 = c.rflags ∧ c.rflags = c.reg .rsp ∧
        c.reg .rsp = c.ss.setWidth 64 ∧ c.ss.setWidth 64 = load 64 c.mem c.entryStack)) := by
  obtain ⟨call, hcalls, hget⟩ := c.call_frame_get k error index
  refine ⟨call, hcalls, ?_⟩
  have hshown : (∀ f ∈ InterruptFrame.fields, (f = .error → HasErrorCode index) →
        InterruptFrame.get (call.push k.returnAddress).mem (call.reg .rsi) f = c.context error f) ↔
      ∀ f ∈ InterruptFrame.fields, (f = .error → HasErrorCode index) →
        c.shown (c.frameWords error index) f = c.context error f :=
    forall₂_congr fun f hf => by rw [hget f hf]
  rw [hshown, c.shown_eq_context_iff]
  exact and_congr_right fun _ => c.frameWords_eq_iff error index

/-- **`xmm0` is 1 and the other `xmm` registers are 0, at the timer's vector 50**: the field
`xmm0` shows 0. At vector 8 with error code 0 the field `rip` shows 0, whatever `rip` is. -/
theorem interrupt_frame_wrong :
    let c : Cpu := ⟨fun _ => 0x7008, fun i => if i = 0 then 1 else 0, fun _ => 0, 0x1234, 8, 16, 0x202⟩
    (∃ call, (Entry.run ⟨idleHandler, 0x1000⟩ ⟨c.interrupt (errorCode 50 0), []⟩
        (interruptHandlers 50 ++ interruptCommon)).calls = [call] ∧
      InterruptFrame.get (call.push 0x1000).mem (call.reg .rsi) (.xmm 0) = .octo 0 ∧
      c.context 0 (.xmm 0) = .octo 1) ∧
    ∃ call, (Entry.run ⟨idleHandler, 0x1000⟩ ⟨c.interrupt (errorCode 8 0), []⟩
        (interruptHandlers 8 ++ interruptCommon)).calls = [call] ∧
      InterruptFrame.get (call.push 0x1000).mem (call.reg .rsi) .rip = .quad 0 ∧
      c.context 0 .rip = .quad 0x1234 := by
  intro c
  constructor
  · obtain ⟨call, hcalls, hget⟩ := c.call_frame_get ⟨idleHandler, 0x1000⟩ 0 50
    exact ⟨call, hcalls, hget (.xmm 0) (by decide), rfl⟩
  · obtain ⟨call, hcalls, hget⟩ := c.call_frame_get ⟨idleHandler, 0x1000⟩ 0 8
    exact ⟨call, hcalls, hget .rip (by decide), rfl⟩

end Urchin
