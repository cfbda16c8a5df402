import Urchin.Proof.QueueLayout
import Urchin.Proof.Receive
import Urchin.Spec.Mmio

/-!
# The driver on the registers

`newMmio_refines`: `VirtioNet::new` on the register block of a device is `VirtioNet.new`
on its description, whatever the registers held before; the device is left live, with the
features and the queues of the driver, and has been kicked once, before it was.
-/

namespace Urchin

open Exec VirtioMmio

namespace MmioDevice

variable (d : MmioDevice) (r : MmioRegs)

/-- The registers in which a live device keeps a queue. -/
def queueRegs (q : Virtqueue) : QueueRegs :=
  { num := q.getSize.toUInt32
    ready := 1
    descLow := (q.getDescriptorAddr &&& 0xffffffff).toUInt32
    descHigh := (q.getDescriptorAddr >>> 32).toUInt32
    driverLow := (q.getAvailAddr &&& 0xffffffff).toUInt32
    driverHigh := (q.getAvailAddr >>> 32).toUInt32
    deviceLow := (q.getUsedAddr &&& 0xffffffff).toUInt32
    deviceHigh := (q.getUsedAddr >>> 32).toUInt32 }

/-- The registers in the hands of the driver `net`, with status `status`. -/
def driven (features : UInt64) (net : VirtioNet) (status : UInt32) : MmioRegs :=
  { status := status
    deviceFeaturesSel := 0
    driverFeaturesSel := 0
    driverLow := (features &&& 0xffffffff).toUInt32
    driverHigh := (features >>> 32).toUInt32
    queueSel := 2
    queues := Function.update (Function.update (Function.update (fun _ => .clear) 0 (queueRegs net.rxq))
      1 (queueRegs net.txq)) 2 (queueRegs net.cxq)
    interruptStatus := 0
    notified := r.notified ++ [(0, 0x0b)] }

end MmioDevice

open MmioDevice

section

variable (d : MmioDevice) (r : MmioRegs)

theorem getAvailableFeatures_eq : getAvailableFeatures d r = (d.features, { r with deviceFeaturesSel := 0 }) := by
  have hhigh : d.read (d.write r 0x014 1) 0x010 = (d.features >>> 32).toUInt32 := rfl
  have hlow : d.read (d.write (d.write r 0x014 1) 0x014 0) 0x010 = (d.features &&& 0xffffffff).toUInt32 := rfl
  unfold getAvailableFeatures
  simp only [hhigh, hlow, join_halves]
  rfl

theorem setEnabledFeatures_eq (features : UInt64) : setEnabledFeatures d r features =
    { r with
      driverFeaturesSel := 0
      driverLow := (features &&& 0xffffffff).toUInt32
      driverHigh := (features >>> 32).toUInt32 } := rfl

/-- A queue that is not ready is set up: all its registers are written. -/
theorem setupQueueMmio_eq (tsc : UInt64) (mem : ℕ → QueueMem) (g n : Bool) (idx : ℕ)
    (hready : (r.queues (UInt32.ofNat idx)).ready = 0) :
    VirtioNet.setupQueueMmio d mem g idx n r =
      (VirtioNet.setupQueue (d.toConfig tsc) mem g idx n).map fun q =>
        (q, { r with
          queueSel := UInt32.ofNat idx
          queues := Function.update r.queues (UInt32.ofNat idx) (queueRegs q) }) := by
  have hsel : selectQueue d r (UInt32.ofNat idx) = .ok { r with queueSel := UInt32.ofNat idx } := by
    unfold selectQueue
    exact if_pos hready
  have hwrite : ∀ q, activateQueue d (writeQueue d { r with queueSel := UInt32.ofNat idx } q) =
      { r with
        queueSel := UInt32.ofNat idx
        queues := Function.update r.queues (UInt32.ofNat idx) (queueRegs q) } := by
    intro q
    simp only [activateQueue, writeQueue, setupQueue, List.foldl_cons, List.foldl_nil, MmioDevice.write,
      MmioRegs.setQueue]
    simp [queueRegs]
  unfold VirtioNet.setupQueueMmio VirtioNet.setupQueue
  simp only [hsel, bind, Except.bind]
  have hsize : getQueueSize d { r with queueSel := UInt32.ofNat idx } = (d.toConfig tsc).queueSize idx := rfl
  rw [hsize]
  cases Virtqueue.new ((d.toConfig tsc).queueSize idx) g n (mem idx) with
  | none => rfl
  | some q => simp only [hwrite, Except.map]

/-- Before the features are settled, the status is what the driver writes. -/
theorem setStatus_early {v : UInt8} {w : UInt32} (hv : v.toUInt32 = w) (hw : w ≠ 0) (h8 : w &&& ~~~0x08 = w) :
    setStatus d r v = { r with status := w } := by
  have hwrite : setStatus d r v = d.writeStatus r v.toUInt32 := rfl
  rw [hwrite, hv, writeStatus, if_neg hw, h8]
  split
  · rfl
  · rfl

/-- The registers when the driver has chosen its features. -/
theorem negotiate_eq : setEnabledFeatures d (getAvailableFeatures d (setStatus d (setStatus d (setStatus d r 0)
    (getStatus d (setStatus d r 0) ||| 0x01)) (getStatus d (setStatus d (setStatus d r 0)
    (getStatus d (setStatus d r 0) ||| 0x01)) ||| 0x02))).2 (d.features &&& VirtioNet.drvFeatures) =
    { r.reset with
      status := 0x03
      driverLow := (d.features &&& VirtioNet.drvFeatures &&& 0xffffffff).toUInt32
      driverHigh := ((d.features &&& VirtioNet.drvFeatures) >>> 32).toUInt32 } := by
  have hreset : setStatus d r 0 = r.reset := rfl
  have hack : setStatus d r.reset (getStatus d r.reset ||| 0x01) = { r.reset with status := 0x01 } := by
    have hzero : getStatus d r.reset = 0 := rfl
    rw [hzero]
    exact setStatus_early d r.reset (by decide) (by decide) (by decide)
  have hdriver : setStatus d { r.reset with status := 0x01 } (getStatus d { r.reset with status := 0x01 } ||| 0x02) =
      { r.reset with status := 0x03 } := by
    have hone : getStatus d { r.reset with status := 0x01 } = 1 := rfl
    rw [hone]
    exact setStatus_early d { r.reset with status := 0x01 } (by decide) (by decide) (by decide)
  rw [hreset, hack, hdriver, getAvailableFeatures_eq, setEnabledFeatures_eq]
  rfl

/-- A status written once the driver has chosen its features. -/
theorem setStatus_late {v : UInt8} {w : UInt32} (hv : v.toUInt32 = w) (hw : w ≠ 0) : setStatus d r v =
    { r with status := if d.accepts r.driverFeatures then w else w &&& ~~~0x08 } := by
  have hwrite : setStatus d r v = d.writeStatus r v.toUInt32 := rfl
  rw [hwrite, hv, writeStatus, if_neg hw]
  split
  · rfl
  · rfl

end

/-- What a push keeps, filling keeps. -/
theorem fillLoop_inv {P : Virtqueue → Prop} (hP : ∀ q b, P q → P (q.stores b false)) (heap : ℕ → Block)
    (size : UInt64) (count : ℕ) : ∀ (q q' : Virtqueue) (a a' : ℕ), P q →
      VirtioNet.fillLoop heap size count q a = .ok (q', a') → P q' := by
  induction count with
  | zero =>
    intro q q' a a' hq h
    obtain ⟨rfl, -⟩ := Prod.mk.inj (Except.ok.inj h)
    exact hq
  | succ count ih =>
    intro q q' a a' hq h
    have hpush : ∀ {b : Buffer} {x : Except String Unit} {q₁ : Virtqueue}, q.push b false = .ok (x, q₁) → P q₁ := by
      intro b x q₁ hp
      unfold Virtqueue.push at hp
      split at hp
      · obtain ⟨-, rfl⟩ := Prod.mk.inj (Except.ok.inj hp)
        exact hP q b hq
      · cases hp
    unfold VirtioNet.fillLoop at h
    split at h
    · split at h
      · rename_i q₁ hp
        exact ih _ _ _ _ (hpush hp) h
      · rename_i e q₁ hp
        obtain ⟨rfl, -⟩ := Prod.mk.inj (Except.ok.inj h)
        exact hpush hp
      · cases h
    · exact ih _ _ _ _ hq h

/-- **`VirtioNet::new` on the registers**, in closed form. -/
theorem newMmio_eq (id : ℕ) (d : MmioDevice) (r : MmioRegs) (tsc : UInt64) (mem : ℕ → QueueMem)
    (heap : ℕ → Block) : VirtioNet.newMmio id d r tsc mem heap =
      (VirtioNet.new id (d.toConfig tsc) mem heap).map fun o =>
        (o, o.elim r fun p => driven r (d.features &&& VirtioNet.drvFeatures) p.1 0x0f) := by
  unfold VirtioNet.newMmio VirtioNet.new
  have htype : getType d r = d.deviceType := rfl
  have havail : (getAvailableFeatures d (setStatus d (setStatus d (setStatus d r 0)
      (getStatus d (setStatus d r 0) ||| 0x01)) (getStatus d (setStatus d (setStatus d r 0)
      (getStatus d (setStatus d r 0) ||| 0x01)) ||| 0x02))).1 = d.features := by
    rw [getAvailableFeatures_eq]
  simp only [htype, show (d.toConfig tsc).type = d.deviceType from rfl]
  by_cases h1 : d.deviceType = 0x01
  rotate_left
  · simp only [if_neg h1]
    rfl
  simp only [if_pos h1, havail, negotiate_eq]
  set subset := d.features &&& VirtioNet.drvFeatures with hsubset
  set r₁ : MmioRegs := { r.reset with
    status := 0x03
    driverLow := (subset &&& 0xffffffff).toUInt32
    driverHigh := (subset >>> 32).toUInt32 } with hr₁
  have hfeatures : r₁.driverFeatures = subset := join_halves subset
  have hstatus : getStatus d r₁ = 3 := rfl
  have hok : setStatus d r₁ (getStatus d r₁ ||| 0x08) =
      { r₁ with status := if d.accepts subset then 0x0b else 0x0b &&& ~~~0x08 } := by
    rw [hstatus, ← hfeatures]
    exact setStatus_late d r₁ (by decide) (by decide)
  have hcond : ((d.toConfig tsc).isLegacy || (d.toConfig tsc).featuresOk) = d.accepts subset := rfl
  simp only [hcond]
  by_cases haccepts : d.accepts subset = true
  rotate_left
  · -- the device cleared the bit
    have hbit : getStatus d { r₁ with status := 0x0b &&& ~~~0x08 } &&& 0x08 ≠ 0x08 := by
      show ((0x0b : UInt32) &&& ~~~0x08).toUInt8 &&& 0x08 ≠ 0x08
      decide
    rw [if_neg haccepts] at hok
    simp only [hok, if_neg haccepts, if_neg hbit]
    rfl
  rw [if_pos haccepts] at hok
  set r₂ : MmioRegs := { r₁ with status := 0x0b } with hr₂
  have hbit : getStatus d r₂ &&& 0x08 = 0x08 := by
    show (0x0b : UInt32).toUInt8 &&& 0x08 = 0x08
    decide
  simp only [hok, if_pos haccepts, if_pos hbit]
  -- the three queues
  set g := subset &&& 0x10000000 != 0 with hg
  have hq : ∀ idx n, ∃ q, VirtioNet.setupQueue (d.toConfig tsc) mem g idx n = .ok q := by
    intro idx n
    obtain ⟨q, hq⟩ := Option.isSome_iff_exists.1
      (Virtqueue.new_isSome ((d.toConfig tsc).queueSize idx) g n (mem idx))
    exact ⟨q, by simp [VirtioNet.setupQueue, hq]⟩
  obtain ⟨q0, h0⟩ := hq 0 true
  obtain ⟨q1, h1⟩ := hq 1 false
  obtain ⟨q2, h2⟩ := hq 2 true
  have hm0 := setupQueueMmio_eq d r₂ tsc mem g true 0 rfl
  have hm1 := setupQueueMmio_eq d { r₂ with
    queueSel := UInt32.ofNat 0
    queues := Function.update r₂.queues (UInt32.ofNat 0) (queueRegs q0) } tsc mem g false 1 rfl
  have hm2 := setupQueueMmio_eq d { r₂ with
    queueSel := UInt32.ofNat 1
    queues := Function.update (Function.update r₂.queues (UInt32.ofNat 0) (queueRegs q0)) (UInt32.ofNat 1)
      (queueRegs q1) } tsc mem g true 2 rfl
  rw [h0] at hm0
  rw [h1] at hm1
  rw [h2] at hm2
  simp only [Except.map] at hm0 hm1 hm2
  simp only [show (d.toConfig tsc).features &&& VirtioNet.drvFeatures = subset from rfl, ← hg]
  simp only [hm0, hm1, hm2, h0, h1, h2, bind, Except.bind]
  cases hfill : VirtioNet.fillLoop heap _ (q0.getAvailFreeSize / 3).toNat q0 0 with
  | error p => rfl
  | ok x =>
    have hplace : queueRegs x.1 = queueRegs q0 :=
      fillLoop_inv (P := fun q => queueRegs q = queueRegs q0)
        (fun q b h => by rw [← h, q.stores_eq]; rfl) heap _ _ q0 x.1 0 x.2 rfl hfill
    simp only [Except.map, Option.elim]
    congr 2
    -- the kick, and then the last bit of the status
    set r₅ : MmioRegs := kickQueue d _ 0 with hr₅
    have hlast : getStatus d r₅ ||| 0x04 = 0x0f := by
      show (0x0b : UInt32).toUInt8 ||| 0x04 = 0x0f
      decide
    have hfeatures₅ : r₅.driverFeatures = subset := hfeatures
    rw [hlast, setStatus_late d r₅ (w := 0x0f) (by decide) (by decide), hfeatures₅, if_pos haccepts, hr₅]
    unfold driven
    simp only [hplace]
    rfl

/-- The device knows a queue: it is ready, of this size, and at these addresses. -/
structure MmioRegs.Live (r : MmioRegs) (n : UInt32) (q : Virtqueue) : Prop where
  ready : (r.queues n).ready = 1
  num : (r.queues n).num = q.getSize.toUInt32
  desc : (r.queues n).descHigh.toUInt64 <<< 32 ||| (r.queues n).descLow.toUInt64 = q.getDescriptorAddr
  avail : (r.queues n).driverHigh.toUInt64 <<< 32 ||| (r.queues n).driverLow.toUInt64 = q.getAvailAddr
  used : (r.queues n).deviceHigh.toUInt64 <<< 32 ||| (r.queues n).deviceLow.toUInt64 = q.getUsedAddr

theorem MmioRegs.Live.of_eq {r : MmioRegs} {n : UInt32} {q : Virtqueue} (h : r.queues n = queueRegs q) :
    r.Live n q := by
  refine ⟨?_, ?_, ?_, ?_, ?_⟩
  all_goals rw [h]
  · rfl
  · rfl
  · exact join_halves _
  · exact join_halves _
  · exact join_halves _

/-- What the driver leaves. -/
theorem driven_live (r : MmioRegs) (features : UInt64) (net : VirtioNet) (status : UInt32) :
    (driven r features net status).driverFeatures = features ∧
      (driven r features net status).Live 0 net.rxq ∧ (driven r features net status).Live 1 net.txq ∧
      (driven r features net status).Live 2 net.cxq ∧
      ∀ n, n ≠ 0 → n ≠ 1 → n ≠ 2 → ((driven r features net status).queues n).ready = 0 := by
  refine ⟨join_halves _, .of_eq ?_, .of_eq ?_, .of_eq ?_, ?_⟩
  · simp only [driven]
    rw [Function.update_of_ne (by decide), Function.update_of_ne (by decide), Function.update_self]
  · simp only [driven]
    rw [Function.update_of_ne (by decide), Function.update_self]
  · simp only [driven]
    rw [Function.update_self]
  · intro n h0 h1 h2
    simp only [driven]
    rw [Function.update_of_ne h2, Function.update_of_ne h1, Function.update_of_ne h0]
    rfl

/-- There is a driver only if the device accepts the features. -/
theorem VirtioNet.new_accepts {id : ℕ} {dev : DeviceConfig} {mem : ℕ → QueueMem} {heap : ℕ → Block}
    {x : VirtioNet × ℕ} (h : VirtioNet.new id dev mem heap = .ok (some x)) :
    (dev.isLegacy || dev.featuresOk) = true := by
  unfold VirtioNet.new at h
  split at h
  · simp only at h
    split at h
    · assumption
    · cases h
  · cases h

/-- **`VirtioNet::new` on the registers of a device.** Whatever the device, and whatever
its registers held before:
* it panics exactly where `VirtioNet.new` does, and leaves a device of another type
  alone;
* otherwise it returns the same driver, and the device is left with status `0x0f`, with
  the features both sides have, which it accepts, and with the three queues of the driver
  and no other;
* the one notification there was came before `DRIVER_OK`. -/
theorem VirtioNet.newMmio_refines (id : ℕ) (d : MmioDevice) (r : MmioRegs) (tsc : UInt64)
    (mem : ℕ → QueueMem) (heap : ℕ → Block) :
    (∀ p, VirtioNet.new id (d.toConfig tsc) mem heap = .error p →
      VirtioNet.newMmio id d r tsc mem heap = .error p) ∧
    (VirtioNet.new id (d.toConfig tsc) mem heap = .ok none →
      VirtioNet.newMmio id d r tsc mem heap = .ok (none, r)) ∧
    ∀ net allocs, VirtioNet.new id (d.toConfig tsc) mem heap = .ok (some (net, allocs)) →
      ∃ r', VirtioNet.newMmio id d r tsc mem heap = .ok (some (net, allocs), r') ∧
        r'.status = 0x0f ∧ r'.driverFeatures = d.features &&& VirtioNet.drvFeatures ∧
        d.accepts r'.driverFeatures = true ∧
        r'.Live 0 net.rxq ∧ r'.Live 1 net.txq ∧ r'.Live 2 net.cxq ∧
        (∀ n, n ≠ 0 → n ≠ 1 → n ≠ 2 → (r'.queues n).ready = 0) ∧
        r'.notified = r.notified ++ [(0, 0x0b)] := by
  have heq := newMmio_eq id d r tsc mem heap
  refine ⟨?_, ?_, ?_⟩
  · intro p hp
    rw [heq, hp]
    rfl
  · intro hnone
    rw [heq, hnone]
    rfl
  · intro net allocs hnew
    rw [hnew] at heq
    obtain ⟨hfeatures, h0, h1, h2, hrest⟩ := driven_live r (d.features &&& VirtioNet.drvFeatures) net 0x0f
    refine ⟨_, heq, rfl, hfeatures, ?_, h0, h1, h2, hrest, rfl⟩
    show d.accepts (driven r (d.features &&& VirtioNet.drvFeatures) net 0x0f).driverFeatures = true
    rw [hfeatures]
    exact VirtioNet.new_accepts hnew

end Urchin
