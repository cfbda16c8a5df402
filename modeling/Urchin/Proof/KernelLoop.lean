import Urchin.Proof.Timer
import Urchin.Spec.KernelLoop

/-!
# The processor sleeps only when it has nothing to do

`LoopOK`: interrupts find the executor at rest, so that the system inside the loop is one
that `TimerSys` describes, and the loop sets the flag with an empty ready queue.
`KernelLoop.sleeps_idle` adds what `TimerOK` knows of the tasks.
-/

namespace Urchin

open Exec

namespace TimerSys

/-- **A call of `run` ends with an empty queue.** -/
theorem returned {s s' : TimerSys} {op : TimerOp} (ha : s.Allowed op) (he : s.step op = .ok s')
    (hcalls : s.machine.calls ≠ []) (hdone : s'.machine.calls = []) : s'.machine.exec.tasks = [] := by
  cases op with
  | spawn =>
    obtain ⟨m, hm, rfl⟩ := map_eq_ok.1 he
    rw [Machine.step_spawn hm] at hdone
    exact absurd hdone hcalls
  | run => exact absurd ha hcalls
  | pop =>
    obtain ⟨m, hm, rfl⟩ := map_eq_ok.1 he
    unfold Machine.step at hm
    cases htasks : s.machine.exec.tasks with
    | nil =>
      rw [htasks] at hm
      obtain rfl := Except.ok.inj hm
      exact htasks
    | cons task tasks =>
      rw [htasks] at hm
      obtain rfl := Except.ok.inj hm
      cases hdone
  | lock =>
    obtain ⟨m, hm, rfl⟩ := map_eq_ok.1 he
    obtain ⟨t, rest, hc, -⟩ := ha
    simp only [Machine.step, hc] at hm
    split at hm <;>
    · obtain rfl := Except.ok.inj hm
      cases hdone
  | new nowtime duration =>
    obtain ⟨r, -, rfl⟩ := map_eq_ok.1 he
    exact absurd hdone hcalls
  | await k =>
    obtain rfl := Except.ok.inj he
    exact absurd hdone hcalls
  | poll =>
    obtain ⟨⟨t, f, hc⟩, -⟩ := ha
    simp only [TimerSys.step, hc] at he
    split at he
    · split at he
      · obtain rfl := Except.ok.inj he
        exact absurd hdone hcalls
      · simp only [Machine.step, hc] at he
        obtain rfl := Except.ok.inj he
        cases hdone
    · obtain rfl := Except.ok.inj he
      exact absurd hdone hcalls
  | finish =>
    obtain ⟨⟨t, f, hc⟩, -⟩ := ha
    simp only [TimerSys.step, Machine.step, hc] at he
    obtain rfl := Except.ok.inj he
    cases hdone
  | interrupt nowtime => exact absurd ha hcalls

end TimerSys

/-- The invariant. -/
structure LoopOK (s : KernelLoop) : Prop where
  reach : Reach TimerSys.step TimerSys.Allowed .init s.sys
  calls : s.sys.machine.calls = [] ↔ s.pc ≠ .running
  flag : s.flag = true → s.pc = .cli ∨ s.pc = .hlt ∨ s.pc = .halted
  idle : s.pc = .sti ∨ (s.pc = .hlt ∨ s.pc = .halted) ∧ s.early = false → s.sys.machine.exec.tasks = []

namespace LoopOK

variable {s s' : KernelLoop}

theorem init : LoopOK .init := by
  refine ⟨.start, ?_, ?_, ?_⟩ <;> simp [KernelLoop.init, TimerSys.init, Machine.init]

/-- An interrupt finds no call of `run`. -/
theorem at_rest (h : LoopOK s) (hflag : s.flag = true) : s.sys.machine.calls = [] := by
  rw [h.calls]
  rcases h.flag hflag with hpc | hpc | hpc <;> rw [hpc] <;> decide

theorem code (h : LoopOK s) {op : TimerOp} (hruns : s.Runs op) (ha : s.sys.Allowed op)
    (he : s.step (.code op) = .ok s') : LoopOK s' := by
  obtain ⟨sys, hsys, rfl⟩ := map_eq_ok.1 he
  have hreach := h.reach.next ha hsys
  rcases Decidable.em (s.pc = .running) with hpc | hpc
  · have hcalls : s.sys.machine.calls ≠ [] := fun hc => h.calls.1 hc hpc
    by_cases hdone : sys.machine.calls = []
    · -- the call has returned
      have htasks := TimerSys.returned ha hsys hcalls hdone
      have hpc' : (if s.pc = .running ∧ sys.machine.calls.isEmpty then LoopPc.sti else s.pc) = .sti :=
        if_pos ⟨hpc, List.isEmpty_iff.2 hdone⟩
      refine ⟨hreach, ?_, ?_, fun _ => htasks⟩
      · rw [hpc']
        exact iff_of_true hdone (by simp)
      · intro hflag
        rcases h.flag hflag with hc | hc | hc <;> rw [hpc] at hc <;> cases hc
    · have hpc' : (if s.pc = .running ∧ sys.machine.calls.isEmpty then LoopPc.sti else s.pc) = .running := by
        rw [if_neg fun hc => hdone (List.isEmpty_iff.1 hc.2), hpc]
      refine ⟨hreach, ?_, ?_, ?_⟩
      · rw [hpc']
        exact iff_of_false hdone (by simp)
      · intro hflag
        rcases h.flag hflag with hc | hc | hc <;> rw [hpc] at hc <;> cases hc
      · rw [hpc']
        rintro (hc | ⟨hc | hc, -⟩) <;> cases hc
  · -- at the start, where only `spawn` is
    obtain ⟨rfl, hboot⟩ : op = .spawn ∧ s.pc = .boot := by
      cases op with
      | spawn => exact ⟨rfl, hruns.resolve_right hpc⟩
      | run | interrupt nowtime => exact hruns.elim
      | pop | lock | new nowtime duration | await timer | poll | finish => exact absurd hruns hpc
    have hpc' : (if s.pc = .running ∧ sys.machine.calls.isEmpty then LoopPc.sti else s.pc) = .boot := by
      rw [if_neg fun hc => hpc hc.1, hboot]
    obtain ⟨m, hm, rfl⟩ := map_eq_ok.1 hsys
    refine ⟨hreach, ?_, ?_, ?_⟩
    · rw [hpc']
      have hcalls : m.calls = s.sys.machine.calls := by rw [Machine.step_spawn hm]
      show m.calls = [] ↔ _
      rw [hcalls]
      exact iff_of_true (h.calls.2 hpc) (by simp)
    · intro hflag
      rcases h.flag hflag with hc | hc | hc <;> rw [hboot] at hc <;> cases hc
    · rw [hpc']
      rintro (hc | ⟨hc | hc, -⟩) <;> cases hc

theorem next (h : LoopOK s) (ha : s.Allowed .next) (he : s.step .next = .ok s') : LoopOK s' := by
  simp only [KernelLoop.step, KernelLoop.next] at he
  have hcalls := h.calls.2 ha.1
  cases hpc : s.pc with
  | boot =>
    rw [hpc] at he
    obtain rfl := Except.ok.inj he
    exact ⟨h.reach, iff_of_true hcalls (by simp), fun _ => .inl rfl, fun hc => by simp at hc⟩
  | cli =>
    rw [hpc] at he
    obtain rfl := Except.ok.inj he
    exact ⟨h.reach, iff_of_true hcalls (by simp), fun hc => (nomatch hc), fun hc => by simp at hc⟩
  | run =>
    rw [hpc] at he
    obtain ⟨sys, hsys, rfl⟩ := map_eq_ok.1 he
    refine ⟨h.reach.next (o := .run) hcalls hsys, ?_, ?_, ?_⟩
    · obtain rfl := Except.ok.inj hsys
      exact iff_of_false (List.cons_ne_nil _ _) (by simp)
    · intro hflag
      rcases h.flag hflag with hc | hc | hc <;> rw [hpc] at hc <;> cases hc
    · intro hc
      simp at hc
  | sti =>
    rw [hpc] at he
    obtain rfl := Except.ok.inj he
    exact ⟨h.reach, iff_of_true hcalls (by simp), fun _ => .inr (.inl rfl), fun _ => h.idle (.inl hpc)⟩
  | hlt =>
    rw [hpc] at he
    obtain rfl := Except.ok.inj he
    refine ⟨h.reach, iff_of_true hcalls (by simp), fun _ => .inr (.inr rfl), fun hc => ?_⟩
    rcases hc with hc | ⟨-, hearly⟩
    · cases hc
    · exact h.idle (.inr ⟨.inl hpc, hearly⟩)
  | running => exact absurd hpc ha.1
  | halted => exact absurd hpc ha.2

/-- An interrupt, with what it makes of the tasks. -/
theorem interrupt (h : LoopOK s) (hflag : s.flag = true) {nowtime : Option UInt64}
    (he : s.step (.interrupt nowtime) = .ok s') : LoopOK s' := by
  have hrest := h.at_rest hflag
  obtain ⟨sys, hreach, hcalls, rfl⟩ : ∃ sys, Reach TimerSys.step TimerSys.Allowed .init sys ∧
      sys.machine.calls = [] ∧ s' = { s with
        sys := sys
        pc := if s.pc = .halted then .cli else s.pc
        early := s.early || s.pc == .hlt } := by
    cases nowtime with
    | none =>
      obtain rfl := Except.ok.inj he
      exact ⟨s.sys, h.reach, hrest, rfl⟩
    | some now =>
      obtain ⟨sys, hsys, rfl⟩ := map_eq_ok.1 he
      exact ⟨sys, h.reach.next (o := .interrupt now) hrest hsys,
        ((TimerSys.TimerOK.reach h.reach).interrupt hrest hsys).2, rfl⟩
  refine ⟨hreach, ?_, ?_, ?_⟩
  · rcases h.flag hflag with hpc | hpc | hpc <;> simp [hpc, hcalls]
  · intro _
    rcases h.flag hflag with hpc | hpc | hpc <;> simp [hpc]
  · intro hidle
    rcases h.flag hflag with hpc | hpc | hpc <;> simp [hpc] at hidle

/-- **Every step keeps the invariant.** -/
theorem step (h : LoopOK s) {o : LoopOp} (ha : s.Allowed o) (he : s.step o = .ok s') : LoopOK s' := by
  cases o with
  | code op => exact h.code ha.1 ha.2 he
  | next => exact h.next ha he
  | interrupt nowtime => exact h.interrupt ha he

theorem of_reach (h : Reach KernelLoop.step KernelLoop.Allowed .init s) : LoopOK s :=
  h.inv init fun _ _ _ hok ha he => hok.step ha he

end LoopOK

/-- **The processor sleeps only when it has nothing to do.** In every run of the loop,
with interrupts of the timer and of other devices wherever the flag lets them in:
* no interrupt comes while `run` is at work, so the executor and the timers have a run
  that `TimerSys` allows;
* when the loop sets the flag, and when the processor halts without an interrupt since
  then, no task is ready: the waker of each unfinished task is held by one registered
  timer;
* whenever it halts, an interrupt brings it to `run` again. -/
theorem KernelLoop.sleeps_idle {s : KernelLoop} (h : Reach step Allowed .init s) :
    Reach TimerSys.step TimerSys.Allowed .init s.sys ∧ (s.flag = true → s.sys.machine.calls = []) ∧
    (s.pc = .sti ∨ s.pc = .halted ∧ s.early = false → s.sys.machine.exec.tasks = [] ∧
      ∀ t f, s.sys.machine.exec.slot t = some f → s.sys.timers.registered.countP (s.sys.Holds t) = 1) ∧
    (s.pc = .halted → ∀ nowtime s₁, s.step (.interrupt nowtime) = .ok s₁ →
      ∃ s₂ s₃, s₁.step .next = .ok s₂ ∧ s₂.step .next = .ok s₃ ∧ s₃.pc = .running ∧
        s₃.sys.machine.exec.tasks = s₁.sys.machine.exec.tasks) := by
  have hok := LoopOK.of_reach h
  refine ⟨hok.reach, hok.at_rest, fun hidle => ?_, fun hpc nowtime s₁ he => ?_⟩
  · have htasks : s.sys.machine.exec.tasks = [] := by
      apply hok.idle
      rcases hidle with hsti | ⟨hhalted, hearly⟩
      · exact .inl hsti
      · exact .inr ⟨.inr hhalted, hearly⟩
    have hcalls : s.sys.machine.calls = [] := by
      rw [hok.calls]
      rcases hidle with hpc | ⟨hpc, -⟩ <;> rw [hpc] <;> decide
    refine ⟨htasks, fun t f hf => ?_⟩
    rcases (TimerSys.TimerOK.reach hok.reach).placed hf (by simp [hcalls]) with ⟨hcount, -⟩ | ⟨-, hheld⟩
    · rw [htasks] at hcount
      cases hcount
    · exact hheld
  · have hpc₁ : s₁.pc = .cli := by
      cases nowtime with
      | none =>
        obtain rfl := Except.ok.inj he
        exact if_pos hpc
      | some now =>
        obtain ⟨sys, -, rfl⟩ := map_eq_ok.1 he
        exact if_pos hpc
    refine ⟨{ s₁ with pc := .run, flag := false }, _, ?_, rfl, rfl, rfl⟩
    unfold KernelLoop.step KernelLoop.next
    rw [hpc₁]

/-- A task of `start_rust` waits for its eight seconds while the processor sleeps. -/
theorem KernelLoop.sleeps_idle_eight : ∃ s : KernelLoop, s.pc = .halted ∧ s.sys.machine.exec.slots.length = 1 ∧
    s.sys.timers.registered.countP (s.sys.Holds 0) = 1 := by
  have hrun : (runIf step Allowed .init [.code .spawn, .next, .next, .next, .code .pop, .code .lock,
      .code (.new 1000 ⟨8, 0⟩), .code (.await 0), .code .poll, .code .pop, .next, .next]).map
      (fun s => (s.pc, s.early, s.sys.machine.exec.slots.length, s.sys.machine.exec.slot 0)) =
      some (.halted, false, 1, some (.suspended 0)) := by decide +kernel
  obtain ⟨s, hs, hobs⟩ := Option.map_eq_some_iff.1 hrun
  obtain ⟨hpc, hobs⟩ := Prod.mk.inj hobs
  obtain ⟨hearly, hobs⟩ := Prod.mk.inj hobs
  obtain ⟨hlen, hslot⟩ := Prod.mk.inj hobs
  exact ⟨s, hpc, hlen, ((sleeps_idle (.of_runIf _ hs)).2.2.1 (.inr ⟨hpc, hearly⟩)).2 0 _ hslot⟩

end Urchin
