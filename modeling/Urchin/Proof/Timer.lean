import Urchin.Proof.Executor
import Urchin.Spec.Timer

/-!
# No task is stranded

A task that is neither polled nor finished is in the ready queue, or suspended on a
registered timer that holds its waker; never both, and in neither place twice
(`TimerOK`). The invariant holds at every step inside `run` and at every round of the
interrupt's loop, so between the calls each unfinished task is in exactly one of the two
places (`timer_tasks_placed`).
-/

namespace Urchin

open Exec

namespace TimerSys

/-- The invariant. -/
structure TimerOK (s : TimerSys) : Prop where
  slots : s.machine.SlotsOK
  single : s.machine.calls.length ≤ 1
  once : s.machine.exec.tasks.Nodup
  popped : ∀ t, RunPc.popped t ∈ s.machine.calls → t ∉ s.machine.exec.tasks
  full : ∀ t, s.machine.Due t → ∃ f, s.machine.exec.slot t = some f
  registered : s.timers.registered.Nodup
  opened : ∀ k ∈ s.timers.registered, k < s.timers.created ∧ (s.timers.states k).completed = false
  expired : ∀ k < s.timers.created, k ∉ s.timers.registered → (s.timers.states k).completed = true
  made : ∀ t k, s.machine.exec.slot t = some (.suspended k) → k < s.timers.created
  woken : ∀ t k, s.machine.Due t → s.machine.exec.slot t = some (.suspended k) → k ∉ s.timers.registered
  held : ∀ k ∈ s.timers.registered, ∀ t, (s.timers.states k).waker = some t →
    s.machine.exec.slot t = some (.suspended k)
  parked : ∀ t f, s.machine.exec.slot t = some f → ¬ s.machine.Due t →
    ∃ k ∈ s.timers.registered, f = .suspended k ∧ (s.timers.states k).waker = some t
  awaited : ∀ t f k, s.machine.calls = [.polling t f] → s.pos = .suspended k →
    k < s.timers.created ∧ (k ∈ s.timers.registered → (s.timers.states k).waker = none)

namespace TimerOK

variable {s : TimerSys}

theorem init : TimerOK .init := by
  refine ⟨.init, ?_, ?_, ?_, ?_, ?_, ?_, ?_, ?_, ?_, ?_, ?_, ?_⟩ <;>
    simp [TimerSys.init, Machine.init, Executor.new, Executor.slot, Machine.Due]

/-- **Each unfinished task is in one place, once.** -/
theorem placed (h : TimerOK s) {t : ℕ} {f : TaskFuture} (hf : s.machine.exec.slot t = some f)
    (hc : ∀ t, RunPc.popped t ∉ s.machine.calls) :
    (s.machine.exec.tasks.count t = 1 ∧ s.timers.registered.countP (s.Holds t) = 0) ∨
    (s.machine.exec.tasks.count t = 0 ∧ s.timers.registered.countP (s.Holds t) = 1) := by
  -- a timer that holds the waker is the one the task is suspended on
  have hholds : ∀ k ∈ s.timers.registered, s.Holds t k = true → f = .suspended k := by
    intro k hk hw
    unfold Holds at hw
    simp only [Bool.and_eq_true, beq_iff_eq] at hw
    have := h.held k hk t hw.1
    rw [hf] at this
    exact Option.some.inj this
  by_cases ht : t ∈ s.machine.exec.tasks
  · refine .inl ⟨List.count_eq_one_of_mem h.once ht, List.countP_eq_zero.2 ?_⟩
    intro k hk hw
    refine h.woken t k (.inl ht) ?_ hk
    rw [hf, hholds k hk hw]
  · obtain ⟨k, hk, hsus, hwk⟩ := h.parked t f hf (by rintro (h1 | h1); exacts [ht h1, hc t h1])
    refine .inr ⟨List.count_eq_zero.2 ht, ?_⟩
    -- so it is held by `k`, which is registered once
    have hsame : ∀ k' ∈ s.timers.registered, s.Holds t k' = true ↔ (k' == k) = true := by
      intro k' hk'
      rw [beq_iff_eq]
      refine ⟨fun hw => ?_, ?_⟩
      · have := hholds k' hk' hw
        rw [hsus] at this
        exact (TaskFuture.suspended.inj this).symm
      · rintro rfl
        simp [Holds, hwk, (h.opened k' hk').2]
    rw [List.countP_congr hsame]
    exact List.count_eq_one_of_mem h.registered hk

/-! ## Steps inside `run` -/

/-- A step of the executor that leaves the futures and the tasks that are due alone. -/
theorem of_machine (h : TimerOK s) {m : Machine TaskFuture} (hS : m.SlotsOK) (hsingle : m.calls.length ≤ 1)
    (honce : m.exec.tasks.Nodup) (hpop : ∀ t, RunPc.popped t ∈ m.calls → t ∉ m.exec.tasks)
    (hslot : ∀ t, m.exec.slot t = s.machine.exec.slot t) (hdue : ∀ t, m.Due t ↔ s.machine.Due t)
    (hidle : ∀ t f, m.calls ≠ [.polling t f]) : TimerOK { s with machine := m } := by
  refine ⟨hS, hsingle, honce, hpop, ?_, h.registered, h.opened, h.expired, ?_, ?_, ?_, ?_, ?_⟩
  · intro t ht; rw [hslot]; exact h.full t ((hdue t).1 ht)
  · intro t k; rw [hslot]; exact h.made t k
  · intro t k ht; rw [hslot]; exact h.woken t k ((hdue t).1 ht)
  · intro k hk t; rw [hslot]; exact h.held k hk t
  · intro t f; rw [hslot, hdue]; exact h.parked t f
  · intro t f k hc; exact absurd hc (hidle t f)

theorem spawn (h : TimerOK s) : TimerOK { s with machine := { s.machine with
    exec := ⟨s.machine.exec.tasks ++ [s.machine.exec.slots.length], s.machine.exec.slots ++ [some .running]⟩
    log := s.machine.log ++ [.spawned s.machine.exec.slots.length .running] } } := by
  set n := s.machine.exec.slots.length with hn
  -- the new task is in nobody's hands yet
  have hnq : n ∉ s.machine.exec.tasks := fun hq => absurd (h.slots.queued n hq) (lt_irrefl _)
  have hnp : RunPc.popped n ∉ s.machine.calls := fun hp => absurd (h.slots.popped n hp) (lt_irrefl _)
  have hslot : ∀ t, t ≠ n → (⟨s.machine.exec.tasks ++ [n], s.machine.exec.slots ++ [some .running]⟩ :
      Executor TaskFuture).slot t = s.machine.exec.slot t := by
    intro t ht
    unfold Executor.slot
    rcases Nat.lt_or_gt_of_ne ht with hlt | hgt
    · rw [List.getElem?_append_left (by omega)]
    · rw [List.getElem?_eq_none (by simp; omega), List.getElem?_eq_none (by omega)]
  have hnew : (⟨s.machine.exec.tasks ++ [n], s.machine.exec.slots ++ [some .running]⟩ :
      Executor TaskFuture).slot n = some .running := by
    unfold Executor.slot
    rw [hn, List.getElem?_concat_length]
    rfl
  have hold : s.machine.exec.slot n = none := by
    unfold Executor.slot
    rw [List.getElem?_eq_none le_rfl]
    rfl
  have hdue : ∀ t, t ≠ n → Machine.Due { s.machine with
      exec := ⟨s.machine.exec.tasks ++ [n], s.machine.exec.slots ++ [some .running]⟩
      log := s.machine.log ++ [.spawned n .running] } t → s.machine.Due t := by
    rintro t ht (hq | hp)
    · exact .inl ((List.mem_append.1 hq).resolve_right (by simpa using ht))
    · exact .inr hp
  refine ⟨h.slots.spawn _, h.single, ?_, ?_, ?_, h.registered, h.opened, h.expired, ?_, ?_, ?_, ?_, h.awaited⟩
  · exact List.nodup_append.2 ⟨h.once, List.nodup_singleton _, by simpa using fun t ht (e : t = n) => hnq (e ▸ ht)⟩
  · intro t hp hq
    rcases List.mem_append.1 hq with hq | hq
    · exact h.popped t hp hq
    · rw [List.mem_singleton.1 hq] at hp
      exact hnp hp
  · intro t ht
    by_cases hne : t = n
    · rw [hne, hnew]; exact ⟨_, rfl⟩
    · rw [hslot t hne]; exact h.full t (hdue t hne ht)
  · intro t k ht
    by_cases hne : t = n
    · rw [hne, hnew] at ht; cases ht
    · rw [hslot t hne] at ht; exact h.made t k ht
  · intro t k hd ht
    by_cases hne : t = n
    · rw [hne, hnew] at ht; cases ht
    · rw [hslot t hne] at ht; exact h.woken t k (hdue t hne hd) ht
  · intro k hk t hw
    have hs := h.held k hk t hw
    have hne : t ≠ n := by
      rintro rfl
      rw [hold] at hs
      cases hs
    rw [hslot t hne]
    exact hs
  · intro t f hs hd
    have hne : t ≠ n := by
      rintro rfl
      exact hd (.inl (List.mem_append_right _ (List.mem_singleton.2 rfl)))
    rw [hslot t hne] at hs
    exact h.parked t f hs fun hd' => hd (hd'.imp (List.mem_append_left _) id)

theorem lock (h : TimerOK s) {t : ℕ} {f : TaskFuture} (hc : s.machine.calls = [.popped t])
    (hs : s.machine.exec.slots[t]? = some (some f)) : TimerOK { s with
      machine := ⟨s.machine.exec.setSlot t none, [.polling t f], s.machine.log ++ [.polled t]⟩
      pos := f } := by
  have ht : t < s.machine.exec.slots.length := (List.getElem?_eq_some_iff.1 hs).1
  have hf : s.machine.exec.slot t = some f := Executor.slot_eq_some.2 hs
  have hself := Executor.slot_setSlot_self ht none
  have hother : ∀ t', t ≠ t' → (s.machine.exec.setSlot t none).slot t' = s.machine.exec.slot t' :=
    fun t' hne => Executor.slot_setSlot_ne hne none
  have hdt : s.machine.Due t := .inr (by rw [hc]; exact List.mem_singleton.2 rfl)
  have htq : t ∉ s.machine.exec.tasks := h.popped t (by rw [hc]; exact List.mem_singleton.2 rfl)
  -- a task whose slot is still full is not the one that is polled now
  have hne : ∀ {t' f'}, (s.machine.exec.setSlot t none).slot t' = some f' → t ≠ t' := by
    rintro t' f' hs' rfl
    rw [hself] at hs'
    cases hs'
  have hdue : ∀ t', t ≠ t' → (s.machine.Due t' ↔ t' ∈ s.machine.exec.tasks) := by
    intro t' hne
    unfold Machine.Due
    rw [hc]
    simp [Ne.symm hne]
  refine ⟨h.slots.lock hc hs, le_rfl, h.once, by simp, ?_, h.registered, h.opened, h.expired, ?_, ?_, ?_, ?_, ?_⟩
  · rintro t' (hq | hp)
    · have hne : t ≠ t' := by rintro rfl; exact htq hq
      rw [hother t' hne]
      exact h.full t' (.inl hq)
    · simp at hp
  · intro t' k hs'
    rw [hother t' (hne hs')] at hs'
    exact h.made t' k hs'
  · rintro t' k (hq | hp) hs'
    · rw [hother t' (hne hs')] at hs'
      exact h.woken t' k (.inl hq) hs'
    · simp at hp
  · intro k hk t' hw
    have hs' := h.held k hk t' hw
    -- it is not suspended on a registered timer, since it was due
    have hne : t ≠ t' := by
      rintro rfl
      exact h.woken t k hdt hs' hk
    rw [hother t' hne]
    exact hs'
  · intro t' f' hs' hd
    have hne' := hne hs'
    rw [hother t' hne'] at hs'
    refine h.parked t' f' hs' fun hd' => hd ?_
    exact .inl ((hdue t' hne').1 hd')
  · intro t' f' k _ hk
    have hk : f = .suspended k := hk
    rw [hk] at hf
    exact ⟨h.made t k hf, fun hr => absurd hr (h.woken t k hdt hf)⟩

theorem new (h : TimerOK s) (exp : UInt64) : TimerOK { s with timers :=
    { s.timers.set s.timers.created ⟨false, exp, none⟩ with
      created := s.timers.created + 1
      registered := s.timers.registered ++ [s.timers.created] } } := by
  set n := s.timers.created
  have hn : n ∉ s.timers.registered := fun hr => absurd (h.opened n hr).1 (lt_irrefl _)
  have hother : ∀ k, k ≠ n → (s.timers.set n ⟨false, exp, none⟩).states k = s.timers.states k :=
    fun k hk => s.timers.set_ne hk _
  have hold : ∀ k, k ∈ s.timers.registered ++ [n] → k ≠ n → k ∈ s.timers.registered :=
    fun k hk hne => (List.mem_append.1 hk).resolve_right (by simpa using hne)
  refine ⟨h.slots, h.single, h.once, h.popped, h.full, ?_, ?_, ?_, ?_, ?_, ?_, ?_, ?_⟩
  · exact List.nodup_append.2 ⟨h.registered, List.nodup_singleton _,
      by simpa using fun k hk (e : k = n) => hn (e ▸ hk)⟩
  · intro k hk
    by_cases hne : k = n
    · rw [hne]
      exact ⟨Nat.lt_succ_self _, by simp only [Timers.set_self]⟩
    · obtain ⟨h1, h2⟩ := h.opened k (hold k hk hne)
      exact ⟨Nat.lt_succ_of_lt h1, by simp only [hother k hne]; exact h2⟩
  · intro k hk hr
    have hne : k ≠ n := by
      rintro rfl
      exact hr (List.mem_append_right _ (List.mem_singleton.2 rfl))
    simp only [hother k hne]
    exact h.expired k (by show k < n; have : k < n + 1 := hk; omega) fun hr' => hr (List.mem_append_left _ hr')
  · intro t k hs
    exact Nat.lt_succ_of_lt (h.made t k hs)
  · intro t k hd hs hr
    -- the task was suspended before this timer was made
    have hne : k ≠ n := (h.made t k hs).ne
    exact h.woken t k hd hs (hold k hr hne)
  · intro k hk t hw
    by_cases hne : k = n
    · rw [hne] at hw
      simp only [Timers.set_self] at hw
      cases hw
    · simp only [hother k hne] at hw
      exact h.held k (hold k hk hne) t hw
  · intro t f hs hd
    obtain ⟨k, hk, hf, hw⟩ := h.parked t f hs hd
    have hne : k ≠ n := by rintro rfl; exact hn hk
    exact ⟨k, List.mem_append_left _ hk, hf, by simp only [hother k hne]; exact hw⟩
  · intro t f k hc hp
    obtain ⟨h1, h2⟩ := h.awaited t f k hc hp
    refine ⟨Nat.lt_succ_of_lt h1, fun hr => ?_⟩
    simp only [hother k h1.ne]
    exact h2 (hold k hr h1.ne)

/-- Moving on in the code of the task that is polled. -/
theorem move (h : TimerOK s) {pos : TaskFuture} (hp : ∀ k, pos = .suspended k → k < s.timers.created ∧
    (k ∈ s.timers.registered → (s.timers.states k).waker = none)) : TimerOK { s with pos := pos } :=
  ⟨h.slots, h.single, h.once, h.popped, h.full, h.registered, h.opened, h.expired, h.made, h.woken, h.held,
    h.parked, fun _ _ k _ hk => hp k hk⟩

/-- A timer that nobody awaits holds no waker. -/
theorem free (h : TimerOK s) {k : ℕ} (hfree : some (.suspended k) ∉ s.machine.exec.slots) :
    k ∈ s.timers.registered → (s.timers.states k).waker = none := by
  intro hr
  cases hw : (s.timers.states k).waker with
  | none => rfl
  | some t => exact absurd (List.mem_of_getElem? (Executor.slot_eq_some.1 (h.held k hr t hw))) hfree

theorem suspend (h : TimerOK s) {t k : ℕ} {f : TaskFuture} (hc : s.machine.calls = [.polling t f])
    (hp : s.pos = .suspended k) (hk : (s.timers.states k).completed = false) : TimerOK { s with
      machine := ⟨s.machine.exec.setSlot t (some (.suspended k)), [.looping],
        s.machine.log ++ [.pending t (.suspended k)]⟩
      timers := s.timers.set k { s.timers.states k with waker := some t } } := by
  obtain ⟨hmade, hfree⟩ := h.awaited t f k hc hp
  have hreg : k ∈ s.timers.registered := by
    by_contra hr
    rw [h.expired k hmade hr] at hk
    cases hk
  have hnone := hfree hreg
  obtain ⟨hs, -⟩ := h.slots.polling hc
  have ht : t < s.machine.exec.slots.length := (List.getElem?_eq_some_iff.1 hs).1
  have hempty : s.machine.exec.slot t = none := (Executor.slot_eq_none ht).2 hs
  have hself := Executor.slot_setSlot_self ht (some (TaskFuture.suspended k))
  have hother : ∀ t', t ≠ t' → (s.machine.exec.setSlot t (some (.suspended k))).slot t' =
      s.machine.exec.slot t' := fun t' hne => Executor.slot_setSlot_ne hne _
  -- a task that is due has a full slot, so it is another one
  have hdue : ∀ {t'}, t' ∈ s.machine.exec.tasks → t ≠ t' := by
    rintro t' hq rfl
    obtain ⟨f', hf'⟩ := h.full t (.inl hq)
    rw [hempty] at hf'
    cases hf'
  set st : SharedState := { s.timers.states k with waker := some t } with hst
  have hkeep : ∀ k', k' ≠ k → (s.timers.set k st).states k' = s.timers.states k' :=
    fun k' hne => s.timers.set_ne hne st
  have hcompl : ∀ k', ((s.timers.set k st).states k').completed = (s.timers.states k').completed := by
    intro k'
    by_cases hne : k' = k
    · rw [hne, Timers.set_self, hst]
    · rw [hkeep k' hne]
  refine ⟨?_, le_rfl, h.once, by simp, ?_, h.registered, ?_, ?_, ?_, ?_, ?_, ?_, by simp⟩
  · exact h.slots.moves (.pending hc _)
  · rintro t' (hq | hp)
    · rw [hother t' (hdue hq)]
      exact h.full t' (.inl hq)
    · simp at hp
  · intro k' hk'
    rw [hcompl]
    exact h.opened k' hk'
  · intro k' hk' hr
    rw [hcompl]
    exact h.expired k' hk' hr
  · intro t' k' hs'
    by_cases hne : t = t'
    · subst hne
      rw [hself] at hs'
      rw [← TaskFuture.suspended.inj (Option.some.inj hs')]
      exact hmade
    · rw [hother t' hne] at hs'
      exact h.made t' k' hs'
  · rintro t' k' (hq | hp) hs'
    · rw [hother t' (hdue hq)] at hs'
      exact h.woken t' k' (.inl hq) hs'
    · simp at hp
  · intro k' hk' t' hw
    by_cases hne : k' = k
    · rw [hne, Timers.set_self] at hw
      rw [hne, ← Option.some.inj hw]
      exact hself
    · rw [hkeep k' hne] at hw
      have hs' := h.held k' hk' t' hw
      have hne' : t ≠ t' := by
        rintro rfl
        rw [hempty] at hs'
        cases hs'
      rw [hother t' hne']
      exact hs'
  · intro t' f' hs' hd
    by_cases hne : t = t'
    · subst hne
      rw [hself] at hs'
      exact ⟨k, hreg, (Option.some.inj hs').symm, by rw [Timers.set_self]⟩
    · rw [hother t' hne] at hs'
      obtain ⟨k', hk', hf', hw'⟩ := h.parked t' f' hs' (by
        rintro (hq | hpc)
        · exact hd (.inl hq)
        · rw [hc] at hpc; simp at hpc)
      have hne' : k' ≠ k := by
        rintro rfl
        rw [hnone] at hw'
        cases hw'
      exact ⟨k', hk', hf', by rw [hkeep k' hne']; exact hw'⟩

theorem finish (h : TimerOK s) {t : ℕ} {f : TaskFuture} (hc : s.machine.calls = [.polling t f]) :
    TimerOK { s with machine := ⟨s.machine.exec, [.looping], s.machine.log ++ [.ready t]⟩ } := by
  refine h.of_machine (h.slots.moves (.ready hc)) le_rfl h.once (by simp) (fun _ => rfl) ?_ (by simp)
  intro t'
  unfold Machine.Due
  rw [hc]
  simp

/-! ## The interrupt -/

/-- A timer expires: its task, if it holds a waker, goes to the ready queue. -/
theorem expire (h : TimerOK s) (hc : s.machine.calls = []) {k : ℕ} {rest : List ℕ}
    (hr : s.timers.registered = k :: rest) {m : Machine TaskFuture} (hS : m.SlotsOK) (hmc : m.calls = [])
    (hslots : m.exec.slots = s.machine.exec.slots)
    (htasks : m.exec.tasks = s.machine.exec.tasks ++ (s.timers.states k).waker.toList) :
    TimerOK { s with
      machine := m
      timers := { s.timers.set k { s.timers.states k with completed := true, waker := none } with
        registered := rest } } := by
  set st : SharedState := { s.timers.states k with completed := true, waker := none } with hst
  have hkr : k ∈ s.timers.registered := by rw [hr]; exact List.mem_cons_self
  have hnd := h.registered
  rw [hr] at hnd
  obtain ⟨hk, hrest⟩ := List.nodup_cons.1 hnd
  have hin : ∀ {k'}, k' ∈ rest → k' ∈ s.timers.registered := by
    intro k' hk'
    rw [hr]
    exact List.mem_cons_of_mem _ hk'
  have hkeep : ∀ {k'}, k' ∈ rest → (s.timers.set k st).states k' = s.timers.states k' := by
    intro k' hk'
    refine s.timers.set_ne ?_ st
    rintro rfl
    exact hk hk'
  have hslot : ∀ t, m.exec.slot t = s.machine.exec.slot t := by
    intro t
    unfold Executor.slot
    rw [hslots]
  have hdue : ∀ t, m.Due t ↔ s.machine.Due t ∨ (s.timers.states k).waker = some t := by
    intro t
    unfold Machine.Due
    rw [hmc, hc, htasks]
    simp
  have hpop : ∀ t, RunPc.popped t ∈ m.calls → t ∉ m.exec.tasks := by rw [hmc]; simp
  refine ⟨hS, by rw [hmc]; simp, ?_, hpop, ?_, hrest, ?_, ?_, ?_, ?_, ?_, ?_, ?_⟩
  · rw [htasks]
    refine List.nodup_append.2 ⟨h.once, ?_, ?_⟩
    · cases (s.timers.states k).waker <;> simp
    · -- a task that the timer holds is not queued
      intro t ht t' ht' e
      subst e
      exact h.woken t k (.inl ht) (h.held k hkr t (Option.mem_toList.1 ht')) hkr
  · intro t ht
    rw [hslot]
    rcases (hdue t).1 ht with h1 | h1
    · exact h.full t h1
    · exact ⟨_, h.held k hkr t h1⟩
  · intro k' hk'
    simp only [hkeep hk']
    exact h.opened k' (hin hk')
  · intro k' hk' hr'
    by_cases hne : k' = k
    · rw [hne]
      simp only [Timers.set_self, hst]
    · simp only [s.timers.set_ne hne st]
      refine h.expired k' hk' ?_
      rw [hr]
      simpa [hne] using hr'
  · intro t k'
    rw [hslot]
    exact h.made t k'
  · intro t k' hd hs hk'
    rw [hslot] at hs
    rcases (hdue t).1 hd with h1 | h1
    · exact h.woken t k' h1 hs (hin hk')
    · rw [h.held k hkr t h1] at hs
      rw [TaskFuture.suspended.inj (Option.some.inj hs)] at hk
      exact hk hk'
  · intro k' hk' t hw
    simp only [hkeep hk'] at hw
    rw [hslot]
    exact h.held k' (hin hk') t hw
  · intro t f hs hd
    rw [hslot] at hs
    rw [hdue, not_or] at hd
    obtain ⟨k', hk', hf, hw⟩ := h.parked t f hs hd.1
    rw [hr] at hk'
    have hk'' : k' ∈ rest := (List.mem_cons.1 hk').resolve_left (by rintro rfl; exact hd.2 hw)
    exact ⟨k', hk'', hf, by simp only [hkeep hk'']; exact hw⟩
  · intro t f k' hcalls
    rw [hmc] at hcalls
    cases hcalls

/-- A timer that has not expired goes back to the end of the queue. -/
theorem rotate (h : TimerOK s) {k : ℕ} {rest : List ℕ} (hr : s.timers.registered = k :: rest) :
    TimerOK { s with timers := { s.timers with registered := rest ++ [k] } } := by
  have hmem : ∀ k', k' ∈ rest ++ [k] ↔ k' ∈ s.timers.registered := by
    intro k'
    rw [hr]
    simp [or_comm]
  refine ⟨h.slots, h.single, h.once, h.popped, h.full, ?_, ?_, ?_, h.made, ?_, ?_, ?_, ?_⟩
  · have hnd := h.registered
    rw [hr] at hnd
    exact (List.perm_append_singleton k rest).nodup_iff.2 hnd
  · exact fun k' hk' => h.opened k' ((hmem k').1 hk')
  · exact fun k' hk' hn => h.expired k' hk' fun hm => hn ((hmem k').2 hm)
  · exact fun t k' hd hs hk' => h.woken t k' hd hs ((hmem k').1 hk')
  · exact fun k' hk' => h.held k' ((hmem k').1 hk')
  · intro t f hs hd
    obtain ⟨k', hk', hf⟩ := h.parked t f hs hd
    exact ⟨k', (hmem k').2 hk', hf⟩
  · intro t f k' hcalls hp
    obtain ⟨h1, h2⟩ := h.awaited t f k' hcalls hp
    exact ⟨h1, fun hk' => h2 ((hmem k').1 hk')⟩

/-- A timer holds the waker of a task that exists. -/
theorem waker_lt (h : TimerOK s) {k t : ℕ} (hk : k ∈ s.timers.registered)
    (hw : (s.timers.states k).waker = some t) : t < s.machine.exec.slots.length :=
  (List.getElem?_eq_some_iff.1 (Executor.slot_eq_some.1 (h.held k hk t hw))).1

/-- **One round of the interrupt's loop.** -/
theorem checkOne {s' : TimerSys} {nowtime : UInt64} (h : TimerOK s) (hc : s.machine.calls = [])
    (hs : s.checkOne nowtime = .ok s') : TimerOK s' ∧ s'.machine.calls = [] := by
  cases Checked.of_checkOne hs with
  | empty => exact ⟨h, hc⟩
  | expire hr _ hw =>
    refine ⟨h.expire hc hr h.slots hc rfl ?_, hc⟩
    rw [hw]
    simp
  | wake hr _ hw hm =>
    have ht := h.waker_lt (by rw [hr]; exact List.mem_cons_self) hw
    rw [Machine.step_wake hm]
    refine ⟨h.expire hc hr (h.slots.moves (.wake _ ht)) hc rfl ?_, hc⟩
    rw [hw]
    rfl
  | keep hr _ => exact ⟨h.rotate hr, hc⟩

theorem interrupt {s' : TimerSys} {nowtime : UInt64} (h : TimerOK s) (hc : s.machine.calls = [])
    (hs : s.checkTimerfuturesFromInterrupt nowtime = .ok s') : TimerOK s' ∧ s'.machine.calls = [] :=
  forRange_inv (P := fun s => TimerOK s ∧ s.machine.calls = [])
    (fun _ _ _ hok he => hok.1.checkOne hok.2 he) ⟨h, hc⟩ hs

/-! ## Every run -/

theorem pop {m : Machine TaskFuture} (h : TimerOK s) (ha : s.machine.Allowed .pop)
    (hm : s.machine.step .pop = .ok m) : TimerOK { s with machine := m } := by
  have hS := h.slots.moves (.of_step h.slots.nested ha hm)
  obtain ⟨rest, hc⟩ := ha
  -- tasks do not call `run`, so there is one call of it at most
  have hrest : rest = [] := by
    have := h.single
    rw [hc] at this
    simpa using this
  subst hrest
  have honce := h.once
  simp only [Machine.step, hc, List.tail_cons] at hm
  split at hm
  · rename_i t ts ht
    rw [ht] at honce
    obtain ⟨htn, honce⟩ := List.nodup_cons.1 honce
    obtain rfl := Except.ok.inj hm
    refine h.of_machine hS le_rfl honce ?_ (fun _ => rfl) ?_ (by simp)
    · intro t' ht'
      simp only [List.mem_singleton, RunPc.popped.injEq] at ht'
      rw [ht']
      exact htn
    · intro t'
      unfold Machine.Due
      rw [ht, hc]
      simp [or_comm]
  · rename_i ht
    obtain rfl := Except.ok.inj hm
    refine h.of_machine hS (by simp) honce (by simp) (fun _ => rfl) ?_ (by simp)
    intro t'
    unfold Machine.Due
    rw [hc]
    simp

/-- **Every step keeps the invariant.** -/
theorem step {s' : TimerSys} {o : TimerOp} (h : TimerOK s) (ha : s.Allowed o) (hs : s.step o = .ok s') :
    TimerOK s' := by
  cases o with
  | spawn =>
    obtain ⟨m, hm, rfl⟩ := map_eq_ok.1 hs
    rw [Machine.step_spawn hm]
    exact h.spawn
  | run =>
    have hc : s.machine.calls = [] := ha
    have hS := h.slots.moves (.run (by simp [hc]))
    obtain rfl := Except.ok.inj hs
    refine h.of_machine hS (by simp [hc]) h.once (by simp [hc]) (fun _ => rfl) ?_ (by simp)
    intro t
    unfold Machine.Due
    simp
  | pop =>
    obtain ⟨m, hm, rfl⟩ := map_eq_ok.1 hs
    exact h.pop ha hm
  | lock =>
    obtain ⟨t, rest, hc, -⟩ := ha
    have hrest : rest = [] := by
      have := h.single
      rw [hc] at this
      simpa using this
    subst hrest
    -- the popped task is due, so its slot is full
    obtain ⟨f, hf⟩ := h.full t (.inr (by rw [hc]; exact List.mem_singleton.2 rfl))
    simp only [TimerSys.step, Machine.step, hc, hf] at hs
    rw [← Except.ok.inj hs]
    exact h.lock hc (Executor.slot_eq_some.1 hf)
  | new nowtime duration =>
    obtain ⟨r, hr, rfl⟩ := map_eq_ok.1 hs
    obtain ⟨q, hq, hr⟩ := bind_eq_ok.1 hr
    obtain rfl := Except.ok.inj hr
    rw [arrayPush_ok hq]
    exact h.new _
  | await k =>
    obtain ⟨-, -, hk, hfree⟩ := ha
    obtain rfl := Except.ok.inj hs
    refine h.move fun k' hk' => ?_
    rw [← TaskFuture.suspended.inj hk']
    exact ⟨hk, h.free hfree⟩
  | poll =>
    obtain ⟨⟨t, f, hc⟩, hp⟩ := ha
    obtain ⟨k, hp⟩ : ∃ k, s.pos = .suspended k := by
      cases hpos : s.pos with
      | running => exact absurd hpos hp
      | suspended k => exact ⟨k, rfl⟩
    cases hk : (s.timers.states k).completed with
    | true =>
      simp only [TimerSys.step, hc, hp, TimerFuture.poll, hk, if_true] at hs
      rw [← Except.ok.inj hs]
      exact h.move (by simp)
    | false =>
      have hpoll : TimerFuture.poll k t s.timers =
          (.pending (), s.timers.set k { s.timers.states k with waker := some t }) := if_neg (by simp [hk])
      have hok := h.suspend hc hp hk
      simp only [TimerSys.step, hc, hp, hpoll, Machine.step] at hs
      rw [← Except.ok.inj hs]
      rw [hp] at hok
      exact hok
  | finish =>
    obtain ⟨⟨t, f, hc⟩, -⟩ := ha
    simp only [TimerSys.step, hc, Machine.step] at hs
    rw [← Except.ok.inj hs]
    exact h.finish hc
  | interrupt nowtime => exact (h.interrupt ha hs).1

theorem reach (h : Reach TimerSys.step Allowed .init s) : TimerOK s :=
  h.inv init fun _ _ _ hok ha he => hok.step ha he

end TimerOK

/-! ## The executor under the timers -/

/-- What the interrupt does to the executor is to wake tasks. -/
theorem checkOne_machine {s s' : TimerSys} {nowtime : UInt64} (h : TimerOK s)
    (hm : Reach Machine.step Machine.Allowed .init s.machine) (hs : s.checkOne nowtime = .ok s') :
    Reach Machine.step Machine.Allowed .init s'.machine := by
  cases Checked.of_checkOne hs with
  | empty => exact hm
  | expire => exact hm
  | @wake timer task rest m hr _ hw hstep =>
    exact hm.next (o := .wake task) (h.waker_lt (by rw [hr]; exact List.mem_cons_self) hw) hstep
  | keep => exact hm

/-- **The tasks' executor is an executor**: a run with timers is a run of `Machine`, so
what holds of every executor (`Machine.executor_discipline`) holds here. -/
theorem reach_machine {s : TimerSys} (h : Reach TimerSys.step Allowed .init s) :
    Reach Machine.step Machine.Allowed .init s.machine := by
  have key : TimerOK s ∧ Reach Machine.step Machine.Allowed .init s.machine := by
    refine h.inv (P := fun s => TimerOK s ∧ Reach Machine.step Machine.Allowed .init s.machine)
      ⟨.init, .start⟩ ?_
    rintro s o s' ⟨hok, hm⟩ ha hs
    refine ⟨hok.step ha hs, ?_⟩
    cases o with
    | spawn =>
      obtain ⟨m, hstep, rfl⟩ := map_eq_ok.1 hs
      exact hm.next (o := .spawn .running) trivial hstep
    | run =>
      obtain rfl := Except.ok.inj hs
      exact hm.next (o := .run) (.inl ha) rfl
    | pop =>
      obtain ⟨m, hstep, rfl⟩ := map_eq_ok.1 hs
      exact hm.next (o := .pop) ha hstep
    | lock =>
      obtain ⟨m, hstep, rfl⟩ := map_eq_ok.1 hs
      exact hm.next (o := .lock) ha hstep
    | new nowtime duration =>
      obtain ⟨r, -, rfl⟩ := map_eq_ok.1 hs
      exact hm
    | await k =>
      obtain rfl := Except.ok.inj hs
      exact hm
    | poll =>
      obtain ⟨⟨t, f, hc⟩, hp⟩ := ha
      simp only [TimerSys.step, hc] at hs
      split at hs
      · split at hs
        · rw [← Except.ok.inj hs]
          exact hm
        · obtain ⟨m, hstep, rfl⟩ := map_eq_ok.1 hs
          exact hm.next (o := .pollEnd _) ⟨t, f, [], hc⟩ hstep
      · rw [← Except.ok.inj hs]
        exact hm
    | finish =>
      obtain ⟨⟨t, f, hc⟩, -⟩ := ha
      obtain ⟨m, hstep, rfl⟩ := map_eq_ok.1 hs
      exact hm.next (o := .pollEnd .ready) ⟨t, f, [], hc⟩ hstep
    | interrupt nowtime =>
      -- each round wakes one task at most, and a wake is a step of the executor
      have hloop := forRange_inv (P := fun s => (TimerOK s ∧ s.machine.calls = []) ∧
        Reach Machine.step Machine.Allowed .init s.machine) (fun _ _ _ hP he =>
          ⟨hP.1.1.checkOne hP.1.2 he, checkOne_machine hP.1.1 hP.2 he⟩) ⟨⟨hok, ha⟩, hm⟩ hs
      exact hloop.2
  exact key.2

/-- **No task is stranded or queued twice.** For tasks that await one timer at a time,
in every run and between the calls of `run`, `spawn` and the interrupt: each task that
has not finished is in the ready queue, once, or its waker is held by one registered
timer that has not completed; and not both. -/
theorem timer_tasks_placed {s : TimerSys} (h : Reach TimerSys.step Allowed .init s)
    (hc : s.machine.calls = []) {t : ℕ} (ht : t < s.machine.exec.slots.length)
    (hf : Event.ready t ∉ s.machine.log) :
    (s.machine.exec.tasks.count t = 1 ∧ s.timers.registered.countP (s.Holds t) = 0) ∨
    (s.machine.exec.tasks.count t = 0 ∧ s.timers.registered.countP (s.Holds t) = 1) := by
  have hok := TimerOK.reach h
  cases hs : s.machine.exec.slot t with
  | some f => exact hok.placed hs (by simp [hc])
  | none =>
    -- an empty slot outside `run` is a finished task's
    rcases hok.slots.empty t ((Executor.slot_eq_none ht).1 hs) with hr | hl
    · exact absurd hr hf
    · rw [hc] at hl
      cases hl

/-- A task of `start_rust`: it is polled, makes a timer of eight seconds and awaits it;
the timer holds its waker until it expires. -/
theorem timer_tasks_placed_eight : ∃ s, Reach TimerSys.step Allowed .init s ∧
    s.machine.calls = [] ∧ s.machine.exec.slots.length = 1 ∧ s.machine.exec.tasks = [] ∧
    s.timers.registered.countP (s.Holds 0) = 1 := by
  have hrun : (runIf TimerSys.step Allowed .init [.spawn, .run, .pop, .lock, .new 1000 ⟨8, 0⟩, .await 0, .poll,
      .pop, .interrupt 8000001000]).map (fun s => (s.machine.calls.isEmpty, s.machine.exec.slots.length,
        s.machine.exec.tasks, decide (Event.ready 0 ∉ s.machine.log))) =
      some (true, 1, [], true) := by decide +kernel
  obtain ⟨s, hs, heq⟩ := Option.map_eq_some_iff.1 hrun
  simp only [Prod.mk.injEq, List.isEmpty_iff, decide_eq_true_eq] at heq
  obtain ⟨hc, hlen, htasks, hready⟩ := heq
  have hreach := Reach.of_runIf _ hs
  refine ⟨s, hreach, hc, hlen, htasks, ?_⟩
  rcases timer_tasks_placed hreach hc (by omega) hready with h | h
  · rw [htasks] at h
    cases h.1
  · exact h.2

end TimerSys

end Urchin
