import Urchin.Spec.Apic

/-!
# Interrupts reach the handler registered last

A byte names a register, so the lines `p` and `p + 128` have the registers of one pin
(`regLow_eq_iff`). `Routing.raise_last` says what an interrupt on a pin comes to in terms
of the last operation on one of the two.
-/

namespace Urchin

open Exec

/-! ## Register numbers -/

theorem regLow_toNat (n : UInt8) : (ioapicRegLow n).toNat = (16 + 2 * n.toNat) % 256 := by
  simp only [ioapicRegLow, UInt8.toNat_add, UInt8.toNat_mul, UInt8.reduceToNat]
  omega

theorem regHigh_toNat (n : UInt8) : (ioapicRegHigh n).toNat = (17 + 2 * n.toNat) % 256 := by
  simp only [ioapicRegHigh, UInt8.toNat_add, UInt8.toNat_mul, UInt8.reduceToNat]
  omega

/-- The line has the low register of the pin. -/
theorem regLow_eq_iff {n : UInt8} {pin : ℕ} (hpin : pin < 120) :
    UInt8.ofNat (0x10 + 2 * pin) = ioapicRegLow n ↔ n.toNat % 128 = pin := by
  rw [← UInt8.toNat_inj, regLow_toNat, UInt8.toNat_ofNat']
  omega

theorem regHigh_eq_iff {n : UInt8} {pin : ℕ} (hpin : pin < 120) :
    UInt8.ofNat (0x10 + 2 * pin + 1) = ioapicRegHigh n ↔ n.toNat % 128 = pin := by
  rw [← UInt8.toNat_inj, regHigh_toNat, UInt8.toNat_ofNat']
  omega

/-- No low register is a high one. -/
theorem regLow_ne (n : UInt8) (pin : ℕ) : UInt8.ofNat (0x10 + 2 * pin + 1) ≠ ioapicRegLow n := by
  rw [Ne, ← UInt8.toNat_inj, regLow_toNat, UInt8.toNat_ofNat']
  omega

theorem regHigh_ne (n : UInt8) (pin : ℕ) : UInt8.ofNat (0x10 + 2 * pin) ≠ ioapicRegHigh n := by
  rw [Ne, ← UInt8.toNat_inj, regHigh_toNat, UInt8.toNat_ofNat']
  omega

/-! ## Writes -/

theorem ioapicWrite_eq (reg : UInt8) (data : UInt32) (a : IoApic) :
    ioapicWrite reg data a = { a with
      select := reg
      redirection := if a.IsRedirection reg then Function.update a.redirection reg data else a.redirection } := by
  have hne : IOAPIC_ADDR + 0x10 ≠ IOAPIC_ADDR + 0x00 := by decide
  unfold ioapicWrite IoApic.store
  rw [if_pos rfl, if_neg hne, UInt8.toUInt8_toUInt32]
  by_cases h : a.IsRedirection reg
  · rw [if_pos ⟨rfl, h⟩, if_pos h]
  · rw [if_neg fun h' => h h'.2, if_neg h]

/-- The two writes for a line: the high register gets `0`. -/
def setEntry (irq : UInt8) (low : UInt32) (a : IoApic) : IoApic :=
  ioapicWrite (ioapicRegLow irq) low (ioapicWrite (ioapicRegHigh irq) 0 a)

theorem setEntry_version (irq : UInt8) (low : UInt32) (a : IoApic) : (setEntry irq low a).version = a.version := by
  unfold setEntry
  rw [ioapicWrite_eq, ioapicWrite_eq]

theorem setEntry_pins (irq : UInt8) (low : UInt32) (a : IoApic) : (setEntry irq low a).pins = a.pins := by
  unfold IoApic.pins
  rw [setEntry_version]

/-- **What the two writes do to a pin.** -/
theorem setEntry_entry (irq : UInt8) (low : UInt32) {a : IoApic} {pin : ℕ} (hpins : pin < a.pins) (hpin : pin < 120) :
    (setEntry irq low a).entry pin = if irq.toNat % 128 = pin then (low, 0) else a.entry pin := by
  have hisLow : irq.toNat % 128 = pin → a.IsRedirection (ioapicRegLow irq) := by
    intro h
    rw [← (regLow_eq_iff hpin).2 h]
    unfold IoApic.IsRedirection
    rw [UInt8.toNat_ofNat', Nat.mod_eq_of_lt (by omega)]
    omega
  have hisHigh : irq.toNat % 128 = pin → a.IsRedirection (ioapicRegHigh irq) := by
    intro h
    rw [← (regHigh_eq_iff hpin).2 h]
    unfold IoApic.IsRedirection
    rw [UInt8.toNat_ofNat', Nat.mod_eq_of_lt (by omega)]
    omega
  unfold setEntry IoApic.entry
  rw [ioapicWrite_eq, ioapicWrite_eq]
  have hsame : ∀ sel red, IoApic.IsRedirection ⟨sel, a.version, red⟩ (ioapicRegLow irq) ↔
      a.IsRedirection (ioapicRegLow irq) := fun _ _ => Iff.rfl
  simp only [hsame]
  by_cases h : irq.toNat % 128 = pin
  · rw [if_pos (hisLow h), if_pos (hisHigh h), if_pos h, (regLow_eq_iff hpin).2 h, (regHigh_eq_iff hpin).2 h,
      Function.update_self, Function.update_of_ne, Function.update_self]
    rw [← (regHigh_eq_iff hpin).2 h]
    exact regLow_ne irq pin
  · have hlow : UInt8.ofNat (0x10 + 2 * pin) ≠ ioapicRegLow irq := fun he => h ((regLow_eq_iff hpin).1 he)
    have hhigh : UInt8.ofNat (0x10 + 2 * pin + 1) ≠ ioapicRegHigh irq := fun he => h ((regHigh_eq_iff hpin).1 he)
    rw [if_neg h]
    split <;> split <;>
      simp only [Function.update_of_ne hlow, Function.update_of_ne hhigh, Function.update_of_ne (regLow_ne irq pin),
        Function.update_of_ne (regHigh_ne irq pin)]

/-- A loop of such writes, all with the same low word. -/
theorem foldl_setEntry (low : UInt32) {pin : ℕ} (hpin : pin < 120) (l : List ℕ) : ∀ a : IoApic, pin < a.pins →
    (a.entry pin = (low, 0) ∨ ∃ i ∈ l, (UInt8.ofNat i).toNat % 128 = pin) →
    (l.foldl (fun a i => setEntry (UInt8.ofNat i) low a) a).entry pin = (low, 0) := by
  induction l with
  | nil =>
    intro a _ h
    rcases h with h | ⟨i, hi, -⟩
    · exact h
    · exact absurd hi List.not_mem_nil
  | cons j l ih =>
    intro a hpins h
    rw [List.foldl_cons]
    apply ih
    · rw [setEntry_pins]
      exact hpins
    · rw [setEntry_entry _ _ hpins hpin]
      rcases h with h | ⟨i, hi, hip⟩
      · left
        rw [h, ite_self]
      · rcases List.mem_cons.1 hi with rfl | hi
        · left
          rw [if_pos hip]
        · exact .inr ⟨i, hi, hip⟩

theorem foldl_setEntry_pins (low : UInt32) (l : List ℕ) : ∀ a : IoApic,
    (l.foldl (fun a i => setEntry (UInt8.ofNat i) low a) a).pins = a.pins := by
  induction l with
  | nil => intro a; rfl
  | cons j l ih =>
    intro a
    rw [List.foldl_cons, ih, setEntry_pins]

/-- The driver reads the version register, and the loop follows. -/
theorem ioapicInit_eq (a : IoApic) : ioapicInit a =
    (List.range ((a.version >>> 16) + 1).toNat).foldl
      (fun a i => setEntry (UInt8.ofNat i) ((1 : UInt32) <<< 16) a) { a with select := 0x01 } := by
  have hne : IOAPIC_ADDR + 0x10 ≠ IOAPIC_ADDR + 0x00 := by decide
  have hread : ioapicRead IOAPIC_REG_IOAPICVER a = (a.version, { a with select := 0x01 }) := by
    unfold ioapicRead IoApic.store IoApic.load
    rw [if_pos rfl]
    simp only [if_neg hne, UInt8.toUInt8_toUInt32]
    rfl
  unfold ioapicInit
  rw [hread]
  rfl

theorem ioapicInit_pins (a : IoApic) : (ioapicInit a).pins = a.pins := by
  rw [ioapicInit_eq, foldl_setEntry_pins]
  rfl

/-- **After `ioapic_init` every pin is masked.** -/
theorem ioapicInit_entry {a : IoApic} {pin : ℕ} (hpins : pin < a.pins) (hpin : pin < 120) :
    (ioapicInit a).entry pin = ((1 : UInt32) <<< 16, 0) := by
  rw [ioapicInit_eq]
  refine foldl_setEntry _ hpin _ _ hpins (.inr ⟨pin, ?_, ?_⟩)
  · -- the loop runs at least to the last pin
    have hle : (a.version >>> 16 &&& 0xff).toNat ≤ (a.version >>> 16).toNat := by
      rw [UInt32.toNat_and]
      exact Nat.and_le_left
    have hlt : (a.version >>> 16).toNat < 65536 := by
      rw [UInt32.toNat_shiftRight]
      have := a.version.toNat_lt
      simp only [UInt32.reduceToNat, Nat.reduceMod, Nat.shiftRight_eq_div_pow]
      omega
    rw [List.mem_range, UInt32.toNat_add, UInt32.toNat_one, Nat.mod_eq_of_lt (by omega)]
    unfold IoApic.pins at hpins
    omega
  · rw [UInt8.toNat_ofNat']
    omega

/-! ## Messages -/

theorem message_masked {a : IoApic} {pin : ℕ} (h : a.entry pin = ((1 : UInt32) <<< 16, 0)) : a.message pin = none := by
  unfold IoApic.message
  rw [h]
  exact if_pos (by decide)

/-- A line of the upper fifty leaves the vectors: its number runs into the delivery mode. -/
theorem message_enabled {a : IoApic} {pin : ℕ} {irq : UInt8} (h : a.entry pin = (VECTOR_IRQ_BASE + irq.toUInt32, 0)) :
    a.message pin = some ⟨48 + irq, if irq < 208 then 0 else 1, 0⟩ := by
  have hbits : ∀ n : Fin 256, (VECTOR_IRQ_BASE + (UInt8.ofFin n).toUInt32) &&& ((1 : UInt32) <<< 16) = 0 ∧
      (VECTOR_IRQ_BASE + (UInt8.ofFin n).toUInt32).toUInt8 = 48 + UInt8.ofFin n ∧
      (VECTOR_IRQ_BASE + (UInt8.ofFin n).toUInt32) >>> 8 &&& 7 = if UInt8.ofFin n < 208 then 0 else 1 := by
    decide +kernel
  obtain ⟨hmask, hvector, hmode⟩ := hbits irq.toFin
  rw [UInt8.ofFin_toFin] at hmask hvector hmode
  unfold IoApic.message
  rw [h]
  simp only [hmask, hvector, hmode, ne_eq, not_true_eq_false, if_false]
  rfl

theorem vector_toNat {irq : UInt8} (h : irq.toNat < 208) : (48 + irq).toNat = 48 + irq.toNat := by
  rw [UInt8.toNat_add]
  exact Nat.mod_eq_of_lt (by have h48 : (48 : UInt8).toNat = 48 := rfl; omega)

/-- `interrupt_handler` on the vector of a line. -/
theorem interruptHandler_vector {H : Type*} (t : IrqHandler H) {irq : UInt8} (h : irq < 208) :
    t.interruptHandler (48 + irq) = .ok (t.handlers irq) := by
  have hirq : irq.toNat < 208 := UInt8.lt_iff_toNat_lt.1 h
  have hvec : (48 + irq).toNat = 48 + irq.toNat := vector_toNat hirq
  unfold IrqHandler.interruptHandler
  rw [if_neg, if_pos, add_sub_cancel_left]
  · rfl
  · rw [UInt8.le_iff_toNat_le, hvec]
    exact Nat.le_add_right 48 _
  · rw [UInt8.le_iff_toNat_le, hvec]
    have h20 : (20 : UInt8).toNat = 20 := rfl
    omega

/-- A vector below the base calls no handler. -/
theorem interruptHandler_low {H : Type*} (t : IrqHandler H) {intvec : UInt8} (h : intvec < 48) (handler : H) :
    t.interruptHandler intvec ≠ .ok (some handler) := by
  unfold IrqHandler.interruptHandler
  have hnle : ¬ 48 ≤ intvec := by
    rw [UInt8.le_iff_toNat_le]
    rw [UInt8.lt_iff_toNat_lt] at h
    omega
  rw [if_neg hnle]
  split
  · intro he
    cases he
  · intro he
    cases he

/-! ## Runs -/

namespace Routing

variable {H : Type*} [Interruptable H]

/-- An operation writes one entry. -/
theorem step_ioapic (r : Routing H) (o : RoutingOp H) : ∃ low, (r.step o).ioapic = setEntry o.irq low r.ioapic := by
  cases o with
  | setHandler handler => exact ⟨_, rfl⟩
  | unsetHandler irq => exact ⟨_, rfl⟩

theorem step_pins (r : Routing H) (o : RoutingOp H) : (r.step o).ioapic.pins = r.ioapic.pins := by
  obtain ⟨low, hlow⟩ := r.step_ioapic o
  rw [hlow, setEntry_pins]

theorem step_handlers_ne (r : Routing H) {o : RoutingOp H} {irq : UInt8} (h : o.irq ≠ irq) :
    (r.step o).table.handlers irq = r.table.handlers irq := by
  cases o with
  | setHandler handler => exact Function.update_of_ne (Ne.symm h) _ _
  | unsetHandler irq' => exact Function.update_of_ne (Ne.symm h) _ _

theorem run_pins (ops : List (RoutingOp H)) : ∀ r : Routing H, (r.run ops).ioapic.pins = r.ioapic.pins := by
  induction ops with
  | nil => intro r; rfl
  | cons o ops ih =>
    intro r
    exact (ih _).trans (r.step_pins o)

theorem run_append (r : Routing H) (before : List (RoutingOp H)) (o : RoutingOp H) (after : List (RoutingOp H)) :
    r.run (before ++ o :: after) = ((r.run before).step o).run after := by
  unfold run
  rw [List.foldl_append, List.foldl_cons]

/-- **Operations on other pins.** They leave the registers of the pin alone, and the handlers
of its lines. -/
theorem run_other {pin : ℕ} (hpin : pin < 120) (ops : List (RoutingOp H)) (hops : ∀ o ∈ ops, o.irq.toNat % 128 ≠ pin) :
    ∀ r : Routing H, pin < r.ioapic.pins → (r.run ops).ioapic.entry pin = r.ioapic.entry pin ∧
      ∀ irq : UInt8, irq.toNat % 128 = pin → (r.run ops).table.handlers irq = r.table.handlers irq := by
  induction ops with
  | nil => exact fun r _ => ⟨rfl, fun _ _ => rfl⟩
  | cons o ops ih =>
    intro r hpins
    have ho := hops o List.mem_cons_self
    obtain ⟨hentry, hhandlers⟩ := ih (fun o' ho' => hops o' (List.mem_cons_of_mem _ ho')) (r.step o)
      (by rw [step_pins]; exact hpins)
    refine ⟨hentry.trans ?_, fun irq hirq => (hhandlers irq hirq).trans ?_⟩
    · obtain ⟨low, hlow⟩ := r.step_ioapic o
      rw [hlow, setEntry_entry _ _ hpins hpin, if_neg ho]
    · apply step_handlers_ne
      rintro rfl
      exact ho hirq

omit [Interruptable H] in
/-- A masked pin is silent. -/
theorem raise_masked {r : Routing H} {pin : ℕ} (h : r.ioapic.entry pin = ((1 : UInt32) <<< 16, 0)) :
    r.raise pin = .ok none := by
  unfold raise
  rw [message_masked h]

omit [Interruptable H] in
/-- A handler that is called is called for the vector of the message. -/
theorem raise_called {r : Routing H} {pin : ℕ} {m : IrqMessage} (hm : r.ioapic.message pin = some m) {h : H}
    (he : r.raise pin = .ok (some h)) : r.table.interruptHandler m.vector = .ok (some h) := by
  unfold raise at he
  rw [hm] at he
  dsimp only at he
  split at he
  · exact he
  · injection he with he
    cases he

end Routing

/-- **Interrupts reach the handler registered last.** For every sequence of `set_handler`
and `unset_handler` after `apic::init`, whatever the chip held before, an interrupt on a
pin `pin` is decided by the last operation on a line `pin` or `pin + 128`:
* without one the pin is masked, and so it is after `unset_handler`;
* after `set_handler` of a line below 208 the handler is called, on the processor with
  number 0;
* a line from 208 on has no vector of its own: no handler is called. -/
theorem Routing.raise_last {H : Type*} [Interruptable H] (a : IoApic) (before after : List (RoutingOp H)) {pin : ℕ}
    (hpins : pin < a.pins) (hpin : pin < 120) (hafter : ∀ o ∈ after, o.irq.toNat % 128 ≠ pin) :
    ((init a).run after).raise pin = .ok none ∧
    (∀ irq : UInt8, irq.toNat % 128 = pin →
      ((init a).run (before ++ .unsetHandler irq :: after)).raise pin = .ok (none : Option H)) ∧
    ∀ handler : H, (Interruptable.getIrq handler).toNat % 128 = pin →
      let r := (init a).run (before ++ .setHandler handler :: after)
      (Interruptable.getIrq handler < 208 → r.raise pin = .ok (some handler) ∧
        ∃ m, r.ioapic.message pin = some m ∧ m.mode = 0 ∧ m.destination = 0) ∧
      (208 ≤ Interruptable.getIrq handler → ∀ h, r.raise pin ≠ .ok (some h)) := by
  have hinit : pin < (init (H := H) a).ioapic.pins := by
    show pin < (ioapicInit a).pins
    rw [ioapicInit_pins]
    exact hpins
  have hbefore : pin < ((init (H := H) a).run before).ioapic.pins := by
    rw [run_pins]
    exact hinit
  refine ⟨?_, ?_, ?_⟩
  · apply raise_masked
    rw [(run_other hpin after hafter _ hinit).1]
    exact ioapicInit_entry hpins hpin
  · intro irq hirq
    apply raise_masked
    rw [run_append, (run_other hpin after hafter _ (by rw [step_pins]; exact hbefore)).1]
    exact (setEntry_entry irq _ hbefore hpin).trans (if_pos hirq)
  · intro handler hirq r
    obtain ⟨hentry, hhandlers⟩ := run_other hpin after hafter (((init a).run before).step (.setHandler handler))
      (by rw [step_pins]; exact hbefore)
    rw [← run_append] at hentry hhandlers
    have hset : (((init a).run before).step (.setHandler handler)).ioapic.entry pin =
        (VECTOR_IRQ_BASE + (Interruptable.getIrq handler).toUInt32, 0) :=
      (setEntry_entry _ _ hbefore hpin).trans (if_pos hirq)
    have hmessage := message_enabled (hentry.trans hset)
    have htable : r.table.handlers (Interruptable.getIrq handler) = some handler :=
      (hhandlers _ hirq).trans (Function.update_self ..)
    refine ⟨fun hlow => ⟨?_, _, hmessage, if_pos hlow, rfl⟩, fun hhigh h => ?_⟩
    · have htaken : (16 : UInt8) ≤ 48 + Interruptable.getIrq handler := by
        rw [UInt8.le_iff_toNat_le, vector_toNat (UInt8.lt_iff_toNat_lt.1 hlow)]
        exact le_trans (by decide) (Nat.le_add_right 48 _)
      unfold raise
      rw [hmessage]
      simp only [IrqMessage.taken, decide_eq_true htaken, if_true]
      rw [interruptHandler_vector _ hlow, htable]
    · have hlt : 48 + Interruptable.getIrq handler < 48 := by
        have hirq := (Interruptable.getIrq handler).toNat_lt
        have h48 : (48 : UInt8).toNat = 48 := rfl
        have h208 : (208 : UInt8).toNat ≤ (Interruptable.getIrq handler).toNat := UInt8.le_iff_toNat_le.1 hhigh
        rw [UInt8.lt_iff_toNat_lt, UInt8.toNat_add]
        have h208' : (208 : UInt8).toNat = 208 := rfl
        omega
      intro he
      exact interruptHandler_low _ hlt h (raise_called hmessage he)

/-- With the kernel's handlers on 24 pins, line 133 takes the pin of line 5. -/
theorem Routing.raise_last_shared :
    let a : IoApic := ⟨0, 0x170020, fun _ => 0⟩
    let r : Routing KernelHandler := init a
    (r.run [.setHandler .timer, .setHandler (.virtioNet 0 5)]).raise 5 = .ok (some (.virtioNet 0 5)) ∧
      (r.run [.setHandler .timer, .setHandler (.virtioNet 0 5), .setHandler (.virtioNet 1 133)]).raise 5 =
        .ok (some (.virtioNet 1 133)) := by
  intro a r
  have hpins : 5 < a.pins := by decide
  have hlast : ∀ o ∈ ([] : List (RoutingOp KernelHandler)), o.irq.toNat % 128 ≠ 5 := by
    intro o ho
    cases ho
  have h5 := (raise_last a [.setHandler .timer] [] hpins (by decide) hlast).2.2 (.virtioNet 0 5) rfl
  have h133 := (raise_last a [.setHandler .timer, .setHandler (.virtioNet 0 5)] [] hpins (by decide) hlast).2.2
    (.virtioNet 1 133) rfl
  simp only [List.cons_append, List.nil_append] at h5 h133
  exact ⟨(h5.1 (by decide)).1, (h133.1 (by decide)).1⟩

end Urchin
