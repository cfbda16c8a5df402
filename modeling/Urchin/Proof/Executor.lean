import Urchin.Spec.Executor

/-!
# What the executor promises to arbitrary futures

`Moves` says what one step can do. Over a run, a slot is empty exactly while its future
is polled or after it has returned `Ready` (`SlotsOK`), so a stale entry of the ready
queue never reaches a future twice and a pending future is back in its slot
(`FuturesOK`). A wake-up stays in the queue or with the call that has popped it until a
poll starts or the task turns out to be finished (`WakesOK`), so it has been served when
a call of `run` returns (`executor_discipline`).
-/

namespace Urchin

open Exec

variable {Φ : Type*}

namespace Executor

theorem wakeByRef_ok {e e' : Executor Φ} {t : ℕ} (h : e.wakeByRef t = .ok e') :
    e' = { e with tasks := e.tasks ++ [t] } := by
  obtain ⟨q, hq, rfl⟩ := map_eq_ok.1 h
  rw [arrayPush_ok hq]

theorem spawn_ok {e e' : Executor Φ} {f : Φ} (h : e.spawn f = .ok e') :
    e' = ⟨e.tasks ++ [e.slots.length], e.slots ++ [some f]⟩ := by
  obtain ⟨q, hq, rfl⟩ := map_eq_ok.1 h
  rw [arrayPush_ok hq]

theorem slot_eq_some {e : Executor Φ} {t : ℕ} {f : Φ} : e.slot t = some f ↔ e.slots[t]? = some (some f) := by
  unfold slot
  cases e.slots[t]? <;> simp

theorem slot_eq_none {e : Executor Φ} {t : ℕ} (ht : t < e.slots.length) :
    e.slot t = none ↔ e.slots[t]? = some none := by
  unfold slot
  rw [List.getElem?_eq_getElem ht]
  simp

theorem slot_setSlot_self {e : Executor Φ} {t : ℕ} (ht : t < e.slots.length) (v : Option Φ) :
    (e.setSlot t v).slot t = v := by
  unfold slot setSlot
  rw [List.getElem?_set_self ht]
  rfl

theorem slot_setSlot_ne {e : Executor Φ} {t t' : ℕ} (h : t ≠ t') (v : Option Φ) :
    (e.setSlot t v).slot t' = e.slot t' := by
  unfold slot setSlot
  rw [List.getElem?_set_ne h]

end Executor

namespace Machine

/-- **What one step can do.** -/
inductive Moves (m : Machine Φ) : Machine Φ → Prop
  | spawn (f : Φ) : Moves m { m with
      exec := ⟨m.exec.tasks ++ [m.exec.slots.length], m.exec.slots ++ [some f]⟩
      log := m.log ++ [.spawned m.exec.slots.length f] }
  | wake (t : ℕ) (ht : t < m.exec.slots.length) : Moves m { m with
      exec := { m.exec with tasks := m.exec.tasks ++ [t] }, log := m.log ++ [.woken t] }
  | run (hc : ∀ c ∈ m.calls, ∃ t f, c = RunPc.polling t f) : Moves m { m with calls := .looping :: m.calls }
  | pop {t : ℕ} {ts : List ℕ} {rest : List (RunPc Φ)} (ht : m.exec.tasks = t :: ts)
      (hc : m.calls = .looping :: rest) : Moves m { m with
      exec := { m.exec with tasks := ts }, calls := .popped t :: rest }
  | ret {rest : List (RunPc Φ)} (ht : m.exec.tasks = []) (hc : m.calls = .looping :: rest) :
      Moves m { m with calls := rest, log := m.log ++ [.returned] }
  | lock {t : ℕ} {f : Φ} {rest : List (RunPc Φ)} (hc : m.calls = .popped t :: rest)
      (hs : m.exec.slots[t]? = some (some f)) : Moves m
      ⟨m.exec.setSlot t none, .polling t f :: rest, m.log ++ [.polled t]⟩
  | skip {t : ℕ} {rest : List (RunPc Φ)} (hc : m.calls = .popped t :: rest)
      (hl : ¬ Locked rest t) (hs : m.exec.slot t = none) :
      Moves m { m with calls := .looping :: rest }
  | pending {t : ℕ} {f : Φ} {rest : List (RunPc Φ)} (hc : m.calls = .polling t f :: rest) (f' : Φ) : Moves m
      ⟨m.exec.setSlot t (some f'), .looping :: rest, m.log ++ [.pending t f']⟩
  | ready {t : ℕ} {f : Φ} {rest : List (RunPc Φ)} (hc : m.calls = .polling t f :: rest) : Moves m
      ⟨m.exec, .looping :: rest, m.log ++ [.ready t]⟩

/-- The calls below the one that moves are polling: a future of theirs made the next call. -/
def Nested (calls : List (RunPc Φ)) : Prop := ∀ c ∈ calls.tail, ∃ t f, c = RunPc.polling t f

theorem step_spawn {m m' : Machine Φ} {f : Φ} (h : m.step (.spawn f) = .ok m') : m' = { m with
    exec := ⟨m.exec.tasks ++ [m.exec.slots.length], m.exec.slots ++ [some f]⟩
    log := m.log ++ [.spawned m.exec.slots.length f] } := by
  obtain ⟨e, he, rfl⟩ := map_eq_ok.1 h
  rw [Executor.spawn_ok he]

theorem step_wake {m m' : Machine Φ} {t : ℕ} (h : m.step (.wake t) = .ok m') : m' = { m with
    exec := { m.exec with tasks := m.exec.tasks ++ [t] }, log := m.log ++ [.woken t] } := by
  obtain ⟨e, he, rfl⟩ := map_eq_ok.1 h
  rw [Executor.wakeByRef_ok he]

theorem Moves.of_step {m m' : Machine Φ} {op : MachineOp Φ} (hn : Nested m.calls) (ha : m.Allowed op)
    (h : m.step op = .ok m') : Moves m m' := by
  cases op with
  | spawn f =>
    rw [step_spawn h]
    exact .spawn f
  | wake t =>
    rw [step_wake h]
    exact .wake t ha
  | run =>
    rw [← Except.ok.inj h]
    -- a nested call of `run` comes from the future that is being polled
    refine .run ?_
    rcases ha with hc | ⟨t, f, rest, hc⟩
    · rw [hc]; simp
    · rw [Nested, hc] at hn
      rw [hc]
      intro c hmem
      rcases List.mem_cons.1 hmem with hmem | hmem
      · exact ⟨t, f, hmem⟩
      · exact hn c hmem
  | pop =>
    obtain ⟨rest, hc⟩ := ha
    simp only [step, hc, List.tail_cons] at h
    split at h
    · rename_i t ts ht
      rw [← Except.ok.inj h]
      exact .pop ht hc
    · rename_i ht
      rw [← Except.ok.inj h]
      exact .ret ht hc
  | lock =>
    obtain ⟨t, rest, hc, hl⟩ := ha
    simp only [step, hc] at h
    split at h
    · rename_i f hs
      rw [← Except.ok.inj h]
      exact .lock hc (Executor.slot_eq_some.1 hs)
    · rename_i hs
      rw [← Except.ok.inj h]
      refine .skip hc (fun hr => hl ?_) hs
      rw [hc]
      exact List.mem_cons_of_mem _ hr
  | pollEnd r =>
    obtain ⟨t, f, rest, hc⟩ := ha
    simp only [step, hc] at h
    rw [← Except.ok.inj h]
    cases r with
    | pending f' => exact .pending hc f'
    | ready => exact .ready hc

/-! ## Slots -/

@[simp] theorem locked_looping {rest : List (RunPc Φ)} {t : ℕ} :
    Locked (.looping :: rest) t ↔ Locked rest t := by simp [Locked, RunPc.polls]

@[simp] theorem locked_popped {rest : List (RunPc Φ)} {t t' : ℕ} :
    Locked (.popped t' :: rest) t ↔ Locked rest t := by simp [Locked, RunPc.polls]

@[simp] theorem locked_polling {rest : List (RunPc Φ)} {t t' : ℕ} {f : Φ} :
    Locked (.polling t' f :: rest) t ↔ t = t' ∨ Locked rest t := by simp [Locked, RunPc.polls]

/-- A popped task below a call that has popped none. -/
theorem popped_mem_cons {c : RunPc Φ} {rest : List (RunPc Φ)} {t : ℕ} (hc : c ≠ .popped t)
    (h : RunPc.popped t ∈ c :: rest) : RunPc.popped t ∈ rest :=
  (List.mem_cons.1 h).resolve_left hc.symm

/-- No two calls under way poll the same task. -/
def Distinct : List (RunPc Φ) → Prop
  | [] => True
  | c :: rest => (∀ t f, c = .polling t f → ¬ Locked rest t) ∧ Distinct rest

/-- A slot is empty exactly while its future is polled or after it has finished. -/
structure SlotsOK (m : Machine Φ) : Prop where
  nested : Nested m.calls
  distinct : Distinct m.calls
  popped : ∀ t, RunPc.popped t ∈ m.calls → t < m.exec.slots.length
  queued : ∀ t ∈ m.exec.tasks, t < m.exec.slots.length
  empty : ∀ t, m.exec.slots[t]? = some none → Event.ready t ∈ m.log ∨ Locked m.calls t
  finished : ∀ t, Event.ready t ∈ m.log → m.exec.slots[t]? = some none ∧ ¬ Locked m.calls t
  locked : ∀ t, Locked m.calls t → m.exec.slots[t]? = some none

namespace SlotsOK

theorem init : SlotsOK (Machine.init : Machine Φ) := by
  constructor <;> simp [Machine.init, Executor.new, Nested, Distinct, Locked]

/-- A step that leaves slots, locks and results alone. -/
theorem same {m m' : Machine Φ} (h : SlotsOK m) (hs : m'.exec.slots = m.exec.slots)
    (hr : ∀ t, Event.ready t ∈ m'.log ↔ Event.ready t ∈ m.log)
    (hl : ∀ t, Locked m'.calls t ↔ Locked m.calls t) (hn : Nested m'.calls) (hd : Distinct m'.calls)
    (hp : ∀ t, RunPc.popped t ∈ m'.calls → t < m.exec.slots.length)
    (hq : ∀ t ∈ m'.exec.tasks, t < m.exec.slots.length) : SlotsOK m' := by
  refine ⟨hn, hd, by rwa [hs], by rwa [hs], ?_, ?_, ?_⟩
  · intro t; rw [hs, hr, hl]; exact h.empty t
  · intro t; rw [hs, hr, hl]; exact h.finished t
  · intro t; rw [hs, hl]; exact h.locked t

theorem spawn {m : Machine Φ} (h : SlotsOK m) (f : Φ) : SlotsOK { m with
    exec := ⟨m.exec.tasks ++ [m.exec.slots.length], m.exec.slots ++ [some f]⟩
    log := m.log ++ [.spawned m.exec.slots.length f] } := by
  -- a slot that was there before is as it was, and the new one is full
  have hold : ∀ t : ℕ, (m.exec.slots ++ [some f])[t]? = some none ↔ m.exec.slots[t]? = some none := by
    intro t
    rw [List.getElem?_append]
    split
    · rfl
    · rename_i ht
      rw [List.getElem?_eq_none (not_lt.1 ht)]
      cases t - m.exec.slots.length <;> simp
  have hready : ∀ t, Event.ready t ∈ m.log ++ [.spawned m.exec.slots.length f] ↔ Event.ready t ∈ m.log := by simp
  refine ⟨h.nested, h.distinct, ?_, ?_, ?_, ?_, ?_⟩
  · intro t ht
    have := h.popped t ht
    simp only [List.length_append, List.length_singleton]
    omega
  · intro t ht
    simp only [List.mem_append, List.mem_singleton] at ht
    simp only [List.length_append, List.length_singleton]
    rcases ht with ht | ht
    · have := h.queued t ht; omega
    · omega
  · intro t; rw [hold, hready]; exact h.empty t
  · intro t; rw [hold, hready]; exact h.finished t
  · intro t; rw [hold]; exact h.locked t

theorem lock {m : Machine Φ} (h : SlotsOK m) {t : ℕ} {f : Φ} {rest : List (RunPc Φ)}
    (hc : m.calls = .popped t :: rest) (hs : m.exec.slots[t]? = some (some f)) :
    SlotsOK ⟨m.exec.setSlot t none, .polling t f :: rest, m.log ++ [.polled t]⟩ := by
  have ht : t < m.exec.slots.length := (List.getElem?_eq_some_iff.1 hs).1
  have hlen : (m.exec.setSlot t none).slots.length = m.exec.slots.length := List.length_set
  have hother : ∀ t', t ≠ t' → (m.exec.setSlot t none).slots[t']? = m.exec.slots[t']? :=
    fun t' hne => List.getElem?_set_ne hne
  have hself : (m.exec.setSlot t none).slots[t]? = some none := List.getElem?_set_self ht
  have hlocked : ∀ t', Locked m.calls t' ↔ Locked rest t' := by simp [hc]
  -- the slot was full, so nobody polls this task and it has not finished
  have hfree : ¬ Locked rest t := by
    intro hl
    rw [h.locked t ((hlocked t).2 hl)] at hs
    cases hs
  have hlive : Event.ready t ∉ m.log := by
    intro hr
    rw [(h.finished t hr).1] at hs
    cases hs
  have hready : ∀ t', Event.ready t' ∈ m.log ++ [.polled t] ↔ Event.ready t' ∈ m.log := by simp
  have hn := h.nested
  have hd := h.distinct
  rw [hc] at hn hd
  refine ⟨hn, ⟨?_, hd.2⟩, ?_, ?_, ?_, ?_, ?_⟩
  · rintro t' f' ⟨⟩
    exact hfree
  · intro t' ht'
    rw [hlen]
    apply h.popped
    rw [hc]
    exact List.mem_cons_of_mem _ (popped_mem_cons (by simp) ht')
  · intro t' ht'
    rw [hlen]
    exact h.queued t' ht'
  · intro t' he
    rw [hready, locked_polling]
    by_cases hne : t = t'
    · exact .inr (.inl hne.symm)
    · rw [hother t' hne] at he
      exact (h.empty t' he).imp id fun hl => .inr ((hlocked t').1 hl)
  · intro t' hr
    rw [hready] at hr
    have hne : t ≠ t' := fun e => hlive (e ▸ hr)
    rw [hother t' hne, locked_polling]
    obtain ⟨h1, h2⟩ := h.finished t' hr
    refine ⟨h1, ?_⟩
    rintro (h3 | h3)
    · exact hne h3.symm
    · exact h2 ((hlocked t').2 h3)
  · intro t' hl
    rw [locked_polling] at hl
    by_cases hne : t = t'
    · rw [← hne]; exact hself
    · rw [hother t' hne]
      exact h.locked t' ((hlocked t').2 (hl.resolve_left (Ne.symm hne)))

/-- The end of a poll: the lock is released, and the slot stays empty exactly if the
future has finished. -/
theorem pollEnd {m : Machine Φ} (h : SlotsOK m) {t : ℕ} {f : Φ} {rest : List (RunPc Φ)}
    (hc : m.calls = .polling t f :: rest) {e : Executor Φ} {log : List (Event Φ)}
    (ht : e.tasks = m.exec.tasks) (hlen : e.slots.length = m.exec.slots.length)
    (hother : ∀ t', t ≠ t' → e.slots[t']? = m.exec.slots[t']?)
    (hready : ∀ t', t ≠ t' → (Event.ready t' ∈ log ↔ Event.ready t' ∈ m.log))
    (hself : Event.ready t ∈ log ↔ e.slots[t]? = some none) : SlotsOK ⟨e, .looping :: rest, log⟩ := by
  have hn := h.nested
  have hd := h.distinct
  have hfree : ¬ Locked rest t := by rw [hc] at hd; exact hd.1 t f rfl
  -- the poll that ends was the only lock on `t`
  have hlocked : ∀ t', t ≠ t' → (Locked m.calls t' ↔ Locked rest t') := by
    intro t' hne
    rw [hc, locked_polling]
    exact or_iff_right (Ne.symm hne)
  rw [hc] at hn hd
  refine ⟨hn, ⟨by rintro _ _ ⟨⟩, hd.2⟩, ?_, ?_, ?_, ?_, ?_⟩
  · intro t' ht'
    rw [hlen]
    apply h.popped
    rw [hc]
    exact List.mem_cons_of_mem _ (popped_mem_cons (by simp) ht')
  · intro t' ht'
    rw [hlen]
    rw [ht] at ht'
    exact h.queued t' ht'
  · intro t' he
    rw [locked_looping]
    by_cases hne : t = t'
    · subst hne; exact .inl (hself.2 he)
    · rw [hother t' hne] at he
      rw [hready t' hne, ← hlocked t' hne]
      exact h.empty t' he
  · intro t' hr
    rw [locked_looping]
    by_cases hne : t = t'
    · subst hne; exact ⟨hself.1 hr, hfree⟩
    · rw [hready t' hne] at hr
      rw [hother t' hne, ← hlocked t' hne]
      exact h.finished t' hr
  · intro t' hl
    rw [locked_looping] at hl
    have hne : t ≠ t' := fun e => hfree (e ▸ hl)
    rw [hother t' hne]
    exact h.locked t' ((hlocked t' hne).2 hl)

/-- A task whose future is polled has an empty slot and has not finished. -/
theorem polling {m : Machine Φ} (h : SlotsOK m) {t : ℕ} {f : Φ} {rest : List (RunPc Φ)}
    (hc : m.calls = .polling t f :: rest) : m.exec.slots[t]? = some none ∧ Event.ready t ∉ m.log := by
  have hl : Locked m.calls t := by rw [hc]; exact locked_polling.2 (.inl rfl)
  exact ⟨h.locked t hl, fun hr => (h.finished t hr).2 hl⟩

theorem moves {m m' : Machine Φ} (h : SlotsOK m) (hm : Moves m m') : SlotsOK m' := by
  have hn := h.nested
  have hd := h.distinct
  have hp := h.popped
  cases hm with
  | spawn f => exact h.spawn f
  | wake t ht =>
    refine h.same rfl (by simp) (fun _ => .rfl) hn hd hp ?_
    intro t' ht'
    rcases List.mem_append.1 ht' with ht' | ht'
    · exact h.queued t' ht'
    · rw [List.mem_singleton.1 ht']; exact ht
  | run hc =>
    refine h.same rfl (fun _ => .rfl) (fun _ => locked_looping) hc ⟨by rintro _ _ ⟨⟩, hd⟩ ?_ h.queued
    intro t ht
    exact hp t (popped_mem_cons (by simp) ht)
  | @pop t ts rest ht hc =>
    rw [hc] at hn hd hp
    refine h.same rfl (fun _ => .rfl) (by simp [hc]) hn ⟨by rintro _ _ ⟨⟩, hd.2⟩ ?_ ?_
    · intro t' ht'
      rcases List.mem_cons.1 ht' with ht' | ht'
      · obtain ⟨⟩ := ht'
        apply h.queued
        rw [ht]
        exact List.mem_cons_self
      · exact hp t' (List.mem_cons_of_mem _ ht')
    · intro t' ht'
      apply h.queued
      rw [ht]
      exact List.mem_cons_of_mem _ ht'
  | @ret rest ht hc =>
    rw [hc] at hn hd hp
    refine h.same rfl (by simp) (by simp [hc]) ?_ hd.2 ?_ h.queued
    · exact fun c hcm => hn c (List.mem_of_mem_tail hcm)
    · exact fun t ht => hp t (List.mem_cons_of_mem _ ht)
  | lock hc hs => exact h.lock hc hs
  | @skip t rest hc hl hs =>
    rw [hc] at hn hd hp
    refine h.same rfl (fun _ => .rfl) (by simp [hc]) hn ⟨by rintro _ _ ⟨⟩, hd.2⟩ ?_ h.queued
    intro t' ht'
    exact hp t' (List.mem_cons_of_mem _ (popped_mem_cons (by simp) ht'))
  | @pending t f rest hc f' =>
    obtain ⟨hs, hr⟩ := h.polling hc
    have ht : t < m.exec.slots.length := (List.getElem?_eq_some_iff.1 hs).1
    refine h.pollEnd hc rfl List.length_set (fun t' hne => List.getElem?_set_ne hne) (by simp) ?_
    rw [Executor.setSlot, List.getElem?_set_self ht]
    simpa using hr
  | @ready t f rest hc =>
    obtain ⟨hs, -⟩ := h.polling hc
    refine h.pollEnd hc rfl rfl (fun _ _ => rfl) ?_ (by simp [hs])
    intro t' hne
    simp [Ne.symm hne]

end SlotsOK

/-! ## Futures -/

/-- A future that has returned `Ready` is not polled again, and one that has returned
`Pending` is in its slot until it is. -/
structure FuturesOK (m : Machine Φ) : Prop where
  once : ∀ a b t, m.log = a ++ Event.polled t :: b → Event.ready t ∉ a
  kept : ∀ a b t f, m.log = a ++ Event.pending t f :: b → Event.polled t ∉ b →
    m.exec.slots[t]? = some (some f)

namespace FuturesOK

theorem init : FuturesOK (Machine.init : Machine Φ) := by
  constructor <;> simp [Machine.init]

/-- A step that starts and ends no poll, and leaves the full slots as they are. -/
theorem grow {m m' : Machine Φ} (h : FuturesOK m) {e : Event Φ} (hlog : m'.log = m.log ++ [e])
    (hp : ∀ t, e ≠ .polled t) (hf : ∀ t f, e ≠ .pending t f)
    (hs : ∀ (t : ℕ) f, m.exec.slots[t]? = some (some f) → m'.exec.slots[t]? = some (some f)) :
    FuturesOK m' := by
  refine ⟨?_, ?_⟩
  · intro a b t hl
    rw [hlog, concat_split] at hl
    rcases hl with ⟨-, he, -⟩ | ⟨b', -, hl⟩
    · exact absurd he.symm (hp t)
    · exact h.once a b' t hl
  · intro a b t f hl hb
    rw [hlog, concat_split] at hl
    rcases hl with ⟨-, he, -⟩ | ⟨b', rfl, hl⟩
    · exact absurd he.symm (hf t f)
    · exact hs t f (h.kept a b' t f hl fun hm => hb (List.mem_append_left _ hm))

theorem moves {m m' : Machine Φ} (h : FuturesOK m) (hS : SlotsOK m) (hm : Moves m m') : FuturesOK m' := by
  cases hm with
  | spawn f =>
    refine h.grow rfl (by simp) (by simp) ?_
    intro t f' hs
    exact (List.getElem?_append_left (List.getElem?_eq_some_iff.1 hs).1).trans hs
  | wake t ht => exact h.grow rfl (by simp) (by simp) fun _ _ hs => hs
  | run hc => exact ⟨h.once, h.kept⟩
  | pop ht hc => exact ⟨h.once, h.kept⟩
  | ret ht hc => exact h.grow rfl (by simp) (by simp) fun _ _ hs => hs
  | @lock t f rest hc hs =>
    refine ⟨?_, ?_⟩
    · intro a b t' hl
      rcases concat_split.1 hl with ⟨rfl, he, -⟩ | ⟨b', -, hl'⟩
      · -- a finished task has an empty slot, and this one was full
        intro hr
        obtain rfl := Event.polled.inj he
        rw [(hS.finished t' hr).1] at hs
        cases hs
      · exact h.once a b' t' hl'
    · intro a b t' f' hl hb
      rcases concat_split.1 hl with ⟨-, he, -⟩ | ⟨b', rfl, hl'⟩
      · cases he
      · have hne : t ≠ t' := by rintro rfl; simp at hb
        have hk := h.kept a b' t' f' hl' fun hm => hb (List.mem_append_left _ hm)
        exact (List.getElem?_set_ne hne).trans hk
  | skip hc hl hs => exact ⟨h.once, h.kept⟩
  | @pending t f rest hc f' =>
    obtain ⟨hs, -⟩ := hS.polling hc
    refine ⟨?_, ?_⟩
    · intro a b t' hl
      rcases concat_split.1 hl with ⟨-, he, -⟩ | ⟨b', -, hl'⟩
      · cases he
      · exact h.once a b' t' hl'
    · intro a b t' f'' hl hb
      rcases concat_split.1 hl with ⟨-, he, -⟩ | ⟨b', rfl, hl'⟩
      · obtain ⟨⟩ := he
        exact List.getElem?_set_self (List.getElem?_eq_some_iff.1 hs).1
      · have hk := h.kept a b' t' f'' hl' fun hm => hb (List.mem_append_left _ hm)
        have hne : t ≠ t' := by
          rintro rfl
          rw [hs] at hk
          cases hk
        exact (List.getElem?_set_ne hne).trans hk
  | ready hc => exact h.grow rfl (by simp) (by simp) fun _ _ hs => hs

end FuturesOK

/-! ## Wake-ups -/

/-- A wake-up of the task, by `wake_by_ref` or by being spawned. -/
def Wakes (t : ℕ) (e : Event Φ) : Prop := e = .woken t ∨ ∃ f, e = .spawned t f

/-- The task is in the ready queue, or popped and about to be polled. -/
def Due (m : Machine Φ) (t : ℕ) : Prop := t ∈ m.exec.tasks ∨ RunPc.popped t ∈ m.calls

/-- A wake-up is served by a later poll, or it is still due; when a call of `run`
returns, it has been served. -/
structure WakesOK (m : Machine Φ) : Prop where
  started : ∀ a b t, m.log = a ++ Event.ready t :: b → Event.polled t ∈ a
  locked : ∀ t, Locked m.calls t → Event.polled t ∈ m.log
  due : ∀ a e b t, m.log = a ++ e :: b → Wakes t e →
    Event.ready t ∈ m.log ∨ Event.polled t ∈ b ∨ m.Due t
  served : ∀ a b c e d t, m.log = a ++ Event.returned :: b → a = c ++ e :: d → Wakes t e →
    Event.ready t ∈ a ∨ Event.polled t ∈ d

namespace WakesOK

theorem init : WakesOK (Machine.init : Machine Φ) := by
  constructor <;> simp [Machine.init, Locked]

/-- A step that records nothing. -/
theorem same {m m' : Machine Φ} (h : WakesOK m) (hlog : m'.log = m.log)
    (hl : ∀ t, Locked m'.calls t → Locked m.calls t)
    (hd : ∀ t, m.Due t → Event.ready t ∈ m.log ∨ m'.Due t) : WakesOK m' := by
  refine ⟨?_, ?_, ?_, ?_⟩
  · rw [hlog]; exact h.started
  · intro t ht
    rw [hlog]
    exact h.locked t (hl t ht)
  · intro a e b t hs he
    rw [hlog] at hs ⊢
    rcases h.due a e b t hs he with h1 | h1 | h1
    · exact .inl h1
    · exact .inr (.inl h1)
    · exact (hd t h1).imp id .inr
  · rw [hlog]; exact h.served

/-- A step that records an event. -/
theorem grow {m m' : Machine Φ} (h : WakesOK m) {e' : Event Φ} (hlog : m'.log = m.log ++ [e'])
    (hr : ∀ t, e' = .ready t → Event.polled t ∈ m.log)
    (hl : ∀ t, Locked m'.calls t → Locked m.calls t ∨ e' = .polled t)
    (hd : ∀ t, m.Due t → e' = .polled t ∨ m'.Due t) (hw : ∀ t, Wakes t e' → m'.Due t)
    (hret : e' = .returned → ∀ t, ¬ m.Due t) : WakesOK m' := by
  refine ⟨?_, ?_, ?_, ?_⟩
  · intro a b t hs
    rw [hlog, concat_split] at hs
    rcases hs with ⟨rfl, he, -⟩ | ⟨b', -, hs⟩
    · exact hr t he.symm
    · exact h.started a b' t hs
  · intro t ht
    rw [hlog]
    rcases hl t ht with h1 | h1
    · exact List.mem_append_left _ (h.locked t h1)
    · rw [h1]; simp
  · intro a e b t hs he
    rw [hlog] at hs ⊢
    rcases concat_split.1 hs with ⟨-, rfl, -⟩ | ⟨b', rfl, hs'⟩
    · exact .inr (.inr (hw t he))
    · rcases h.due a e b' t hs' he with h1 | h1 | h1
      · exact .inl (List.mem_append_left _ h1)
      · exact .inr (.inl (List.mem_append_left _ h1))
      · rcases hd t h1 with h2 | h2
        · rw [h2]; simp
        · exact .inr (.inr h2)
  · intro a b c e d t hs ha he
    rw [hlog, concat_split] at hs
    rcases hs with ⟨rfl, hret', -⟩ | ⟨b', -, hs⟩
    · -- at the moment of the return nothing is due
      rcases h.due c e d t ha he with h1 | h1 | h1
      · exact .inl h1
      · exact .inr h1
      · exact absurd h1 (hret hret'.symm t)
    · exact h.served a b' c e d t hs ha he

/-- The end of a poll: it wakes nobody and leaves the ready queue alone. -/
theorem pollEnd {m m' : Machine Φ} (h : WakesOK m) {t : ℕ} {f : Φ} {rest : List (RunPc Φ)} {e' : Event Φ}
    (hc : m.calls = .polling t f :: rest) (hc' : m'.calls = .looping :: rest)
    (htasks : m'.exec.tasks = m.exec.tasks) (hlog : m'.log = m.log ++ [e'])
    (hr : ∀ t, e' = .ready t → Event.polled t ∈ m.log) (hw : ∀ t, ¬ Wakes t e') (hret : e' ≠ .returned) :
    WakesOK m' := by
  refine h.grow hlog hr ?_ ?_ (fun t' he => absurd he (hw t')) fun he => absurd he hret
  · intro t' ht'
    rw [hc'] at ht'
    rw [hc]
    exact .inl (locked_polling.2 (.inr (locked_looping.1 ht')))
  · rintro t' (ht' | ht')
    · exact .inr (.inl (by rw [htasks]; exact ht'))
    · rw [hc] at ht'
      exact .inr (.inr (by rw [hc']; exact List.mem_cons_of_mem _ (popped_mem_cons (by simp) ht')))

theorem moves {m m' : Machine Φ} (h : WakesOK m) (hS : SlotsOK m) (hm : Moves m m') : WakesOK m' := by
  cases hm with
  | spawn f =>
    refine h.grow rfl (by simp) (fun _ hl => .inl hl) ?_ ?_ (by simp)
    · exact fun t ht => .inr (ht.imp (List.mem_append_left _) id)
    · rintro t (ht | ⟨f', ht⟩)
      · cases ht
      · obtain ⟨⟩ := ht
        exact .inl (by simp)
  | wake t ht =>
    refine h.grow rfl (by simp) (fun _ hl => .inl hl) ?_ ?_ (by simp)
    · exact fun t ht => .inr (ht.imp (List.mem_append_left _) id)
    · rintro t' (ht' | ⟨f', ht'⟩)
      · obtain ⟨⟩ := ht'
        exact .inl (by simp)
      · cases ht'
  | run hc =>
    refine h.same rfl (fun t ht => locked_looping.1 ht) ?_
    exact fun t ht => .inr (ht.imp id (List.mem_cons_of_mem _))
  | @pop t ts rest ht hc =>
    refine h.same rfl (fun t' ht' => by rw [hc]; simpa using ht') ?_
    -- the popped task is still due
    rintro t' (ht' | ht')
    · rw [ht] at ht'
      rcases List.mem_cons.1 ht' with rfl | ht'
      · exact .inr (.inr List.mem_cons_self)
      · exact .inr (.inl ht')
    · rw [hc] at ht'
      exact .inr (.inr (List.mem_cons_of_mem _ (popped_mem_cons (by simp) ht')))
  | @ret rest ht hc =>
    refine h.grow rfl (by simp) (fun t hl => .inl (by rw [hc]; simpa using hl)) ?_ ?_ ?_
    · rintro t (hq | hp)
      · rw [ht] at hq; cases hq
      · rw [hc] at hp
        exact .inr (.inr (popped_mem_cons (by simp) hp))
    · rintro t (he | ⟨f, he⟩) <;> cases he
    · rintro - t (hq | hp)
      · rw [ht] at hq; cases hq
      · have hn := hS.nested
        rw [hc] at hp hn
        obtain ⟨_, _, hbad⟩ := hn _ (popped_mem_cons (by simp) hp)
        cases hbad
  | @lock t f rest hc hs =>
    refine h.grow rfl (by simp) ?_ ?_ ?_ (by simp)
    · intro t' ht'
      rcases locked_polling.1 ht' with rfl | ht'
      · exact .inr rfl
      · rw [hc]
        exact .inl (locked_popped.2 ht')
    · rintro t' (ht' | ht')
      · exact .inr (.inl ht')
      · rw [hc] at ht'
        rcases List.mem_cons.1 ht' with ht' | ht'
        · obtain ⟨⟩ := ht'
          exact .inl rfl
        · exact .inr (.inr (List.mem_cons_of_mem _ ht'))
    · rintro t' (he | ⟨f', he⟩) <;> cases he
  | @skip t rest hc hl hs =>
    refine h.same rfl (fun t' ht' => by rw [hc]; simpa using ht') ?_
    rintro t' (ht' | ht')
    · exact .inr (.inl ht')
    · rw [hc] at ht'
      rcases List.mem_cons.1 ht' with ht' | ht'
      · -- an empty slot that nobody has locked: the task has finished
        obtain ⟨⟩ := ht'
        have hlt : t < m.exec.slots.length := hS.popped t (by rw [hc]; exact List.mem_cons_self)
        refine .inl ((hS.empty t ((Executor.slot_eq_none hlt).1 hs)).resolve_right ?_)
        rw [hc, locked_popped]
        exact hl
      · exact .inr (.inr (List.mem_cons_of_mem _ ht'))
  | @pending t f rest hc f' =>
    refine h.pollEnd hc rfl rfl rfl (by simp) ?_ (by simp)
    rintro t' (he | ⟨f', he⟩) <;> cases he
  | @ready t f rest hc =>
    refine h.pollEnd hc rfl rfl rfl ?_ ?_ (by simp)
    · rintro t' ⟨⟩
      apply h.locked
      rw [hc]
      exact locked_polling.2 (.inl rfl)
    · rintro t' (he | ⟨f', he⟩) <;> cases he

end WakesOK

/-! ## Every run -/

/-- The invariant of a run. -/
structure ExecutorOK (m : Machine Φ) : Prop where
  slots : SlotsOK m
  futures : FuturesOK m
  wakes : WakesOK m

theorem ExecutorOK.reach {m : Machine Φ} (h : Reach step Allowed .init m) : ExecutorOK m := by
  refine h.inv ⟨.init, .init, .init⟩ ?_
  intro m op m' hm ha he
  have hmv := Moves.of_step hm.slots.nested ha he
  exact ⟨hm.slots.moves hmv, hm.futures.moves hm.slots hmv, hm.wakes.moves hm.slots hmv⟩

/-- **The executor's discipline.** In every run, for futures that return anything:
* no future is polled again after it has returned `Ready`;
* a future that has returned `Pending` is in its slot until it is polled again;
* when a call of `run` returns, every task spawned before has been polled;
* when a call of `run` returns, every task woken before has finished, or has been
  polled by a poll that started after the wake-up. -/
theorem executor_discipline {m : Machine Φ} (h : Reach step Allowed .init m) :
    (∀ a b t, m.log = a ++ Event.polled t :: b → Event.ready t ∉ a) ∧
    (∀ a b t f, m.log = a ++ Event.pending t f :: b → Event.polled t ∉ b →
      m.exec.slot t = some f) ∧
    (∀ a b t f, m.log = a ++ Event.returned :: b → Event.spawned t f ∈ a → Event.polled t ∈ a) ∧
    (∀ a b c t, m.log = a ++ Event.woken t :: (b ++ Event.returned :: c) →
      Event.ready t ∈ a ++ b ∨ Event.polled t ∈ b) := by
  have hok := ExecutorOK.reach h
  refine ⟨hok.futures.once, ?_, ?_, ?_⟩
  · intro a b t f hl hb
    exact Executor.slot_eq_some.2 (hok.futures.kept a b t f hl hb)
  · intro a b t f hl hf
    obtain ⟨c, d, hcd⟩ := List.append_of_mem hf
    rcases hok.wakes.served a b c _ d t hl hcd (.inr ⟨f, rfl⟩) with hr | hp
    · -- a finished task has been polled before
      obtain ⟨c', d', hr⟩ := List.append_of_mem hr
      have hp := hok.wakes.started c' (d' ++ .returned :: b) t (by rw [hl, hr]; simp)
      rw [hr]
      exact List.mem_append_left _ hp
    · rw [hcd]
      exact List.mem_append_right _ (List.mem_cons_of_mem _ hp)
  · intro a b c t hl
    have := hok.wakes.served (a ++ .woken t :: b) c a _ b t (by rw [hl]; simp) rfl (.inl rfl)
    rcases this with hr | hp
    · exact .inl (by simpa using hr)
    · exact .inr hp

/-- A task that wakes itself while it is polled, and is woken once more when it has
finished: the last entry of the queue finds an empty slot. -/
theorem executor_discipline_rewoken : ∃ m : Machine Unit, Reach step Allowed .init m ∧
    m.log = [.spawned 0 (), .polled 0, .woken 0, .pending 0 (), .polled 0, .ready 0, .woken 0, .returned] ∧
    (Event.ready 0 ∈ ([.spawned 0 (), .polled 0, .pending 0 (), .polled 0, .ready 0, .woken 0] : List (Event Unit)) ∨
      Event.polled 0 ∈ ([.pending 0 (), .polled 0, .ready 0, .woken 0] : List (Event Unit))) := by
  have hrun : (runIf step Allowed (Machine.init : Machine Unit) [.spawn (), .run, .pop, .lock, .wake 0,
      .pollEnd (.pending ()), .pop, .lock, .pollEnd .ready, .wake 0, .pop, .lock, .pop]).map Machine.log =
      some [.spawned 0 (), .polled 0, .woken 0, .pending 0 (), .polled 0, .ready 0, .woken 0, .returned] := rfl
  obtain ⟨m, hm, hlog⟩ := Option.map_eq_some_iff.1 hrun
  have hreach := Reach.of_runIf _ hm
  exact ⟨m, hreach, hlog, (executor_discipline hreach).2.2.2 [.spawned 0 (), .polled 0] _ [] 0 hlog⟩

end Machine

end Urchin
