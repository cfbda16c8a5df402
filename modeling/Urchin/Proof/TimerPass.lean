import Urchin.Spec.Timer

/-!
# What a timer pass does, and when a timer fires

The interrupt pops as many timer states as the queue has when it starts, and pushes those
back that have not expired. The queue is rotated once, so every state is looked at once: the
expired ones are completed and their wakers woken, and the others are left in their order
(`timer_pass_exact`). A push follows a pop, so it has room.

The expiry time is a sum in 64 bits, of a duration that is cut to 64 bits. A timer never
fires early exactly if the sum fits, or wraps to the largest clock value
(`timer_never_early_iff`).
-/

namespace Urchin

open Exec

/-- The wakers are woken, one after the other. -/
def wakeAll {Φ : Type} (m : Machine Φ) (tasks : List ℕ) : Except Panic (Machine Φ) :=
  tasks.foldlM (fun m task => m.step (.wake task)) m

/-- The executor after the tasks have been woken. -/
def Machine.woken {Φ : Type} (m : Machine Φ) (tasks : List ℕ) : Machine Φ :=
  { m with exec := { m.exec with tasks := m.exec.tasks ++ tasks }, log := m.log ++ tasks.map .woken }

theorem wakeAll_ok {Φ : Type} {m : Machine Φ} {tasks : List ℕ}
    (h : m.exec.tasks.length + tasks.length ≤ QUEUE_CAPACITY) : wakeAll m tasks = .ok (m.woken tasks) := by
  induction tasks generalizing m with
  | nil => simp only [wakeAll, Machine.woken, List.foldlM_nil, List.append_nil, List.map_nil]; rfl
  | cons task tasks ih =>
    have hstep : m.step (.wake task) = .ok (m.woken [task]) := by
      have hroom : m.exec.tasks.length < QUEUE_CAPACITY := by
        rw [List.length_cons] at h
        omega
      simp only [Machine.step, Executor.wakeByRef, arrayPush, if_pos hroom]
      rfl
    have hrest : (m.woken [task]).exec.tasks.length + tasks.length ≤ QUEUE_CAPACITY := by
      simp only [Machine.woken, List.length_append, List.length_cons, List.length_nil] at h ⊢
      omega
    calc wakeAll m (task :: tasks) = (m.step (.wake task)).bind fun m => wakeAll m tasks := rfl
      _ = wakeAll (m.woken [task]) tasks := by rw [hstep]; rfl
      _ = .ok (m.woken (task :: tasks)) := by
        rw [ih hrest]
        simp [Machine.woken]

theorem wakeAll_append {Φ : Type} (m : Machine Φ) (tasks tasks' : List ℕ) :
    wakeAll m (tasks ++ tasks') = (wakeAll m tasks).bind fun m => wakeAll m tasks' :=
  List.foldlM_append ..

/-- The timers after a pass at clock `now` over the queue entries `l`, which stood before the
entries `kept`. -/
def Timers.passed (ts : Timers) (now : UInt64) (l kept : List ℕ) : Timers :=
  { ts with
    states := fun k =>
      if k ∈ l ∧ now > (ts.states k).expiredMonotonic then
        { ts.states k with completed := true, waker := none }
      else ts.states k
    registered := kept ++ l.filter fun k => (ts.states k).expiredMonotonic ≥ now }

section

variable (ts : Timers) {now : UInt64} {k : ℕ} (rest kept registered : List ℕ)

theorem Timers.passed_live (hk : ¬ now > (ts.states k).expiredMonotonic) :
    ({ ts with registered := registered } : Timers).passed now rest (kept ++ [k]) =
      ts.passed now (k :: rest) kept := by
  have hlive : (ts.states k).expiredMonotonic ≥ now := UInt64.not_lt.1 hk
  simp only [Timers.passed, Timers.mk.injEq, true_and]
  constructor
  · funext j
    by_cases hj : j = k
    · rw [hj, if_neg fun h => hk h.2, if_neg fun h => hk h.2]
    · simp only [List.mem_cons, hj, false_or]
  · rw [List.filter_cons_of_pos, List.append_assoc, List.singleton_append]
    exact decide_eq_true hlive

/-- A state that is in the queue again changes no more. -/
theorem Timers.passed_expired (hk : now > (ts.states k).expiredMonotonic) :
    ({ ts.set k { ts.states k with completed := true, waker := none } with
        registered := registered } : Timers).passed now rest kept = ts.passed now (k :: rest) kept := by
  have hexpiry : ∀ j, ((ts.set k { ts.states k with completed := true, waker := none }).states j).expiredMonotonic =
      (ts.states j).expiredMonotonic := by
    intro j
    by_cases hj : j = k
    · rw [hj, ts.set_self]
    · rw [ts.set_ne hj]
  simp only [Timers.passed, hexpiry, ts.set_created, Timers.mk.injEq, true_and]
  constructor
  · funext j
    by_cases hj : j = k
    · rw [hj, ts.set_self, if_pos (⟨List.mem_cons_self, hk⟩ : k ∈ k :: rest ∧ _)]
      exact ite_self _
    · simp only [ts.set_ne hj, List.mem_cons, hj, false_or]
  · rw [List.filter_cons_of_neg]
    rw [decide_eq_true_eq]
    exact UInt64.not_le.2 hk

end

namespace TimerSys

variable {s : TimerSys} {now : UInt64} {k : ℕ} {rest kept : List ℕ}

/-- A timer that has not expired goes to the end of the queue, which has room as it was
popped just before. -/
theorem checkOne_live (hr : s.timers.registered = k :: rest) (hcap : (k :: rest).length ≤ QUEUE_CAPACITY)
    (hk : ¬ now > (s.timers.states k).expiredMonotonic) :
    checkOne now s = .ok { s with timers := { s.timers with registered := rest ++ [k] } } := by
  have hroom : rest.length < QUEUE_CAPACITY := hcap
  simp only [checkOne, hr, if_neg hk, arrayPush, if_pos hroom]
  rfl

theorem checkOne_expired (hr : s.timers.registered = k :: rest)
    (hk : now > (s.timers.states k).expiredMonotonic) :
    checkOne now s = (wakeAll s.machine (s.timers.states k).waker.toList).map fun m => { s with
      machine := m
      timers := { s.timers.set k { s.timers.states k with completed := true, waker := none } with
        registered := rest } } := by
  simp only [checkOne, hr, if_pos hk]
  cases hw : (s.timers.states k).waker with
  | none => rfl
  | some task =>
    simp only [wakeAll, Option.toList_some, List.foldlM_cons, List.foldlM_nil]
    cases s.machine.step (.wake task) <;> rfl

/-- The timers of `l` whose wakers a pass wakes, in the order of the queue. -/
structure Wakes (ts : Timers) (now : UInt64) (l woken : List ℕ) : Prop where
  sublist : woken.Sublist l
  nodup : woken.Nodup
  mem : ∀ k, k ∈ woken ↔ k ∈ l ∧ now > (ts.states k).expiredMonotonic ∧ (ts.states k).waker ≠ none

/-- The tasks whose wakers the timers hold. -/
def wakers (ts : Timers) (timers : List ℕ) : List ℕ := timers.filterMap fun k => (ts.states k).waker

/-- A timer that has not expired is not woken. -/
theorem Wakes.live {ts : Timers} {k : ℕ} {rest registered woken : List ℕ} {now : UInt64}
    (hk : ¬ now > (ts.states k).expiredMonotonic)
    (h : Wakes { ts with registered := registered } now rest woken) : Wakes ts now (k :: rest) woken := by
  refine ⟨h.sublist.cons k, h.nodup, fun j => (h.mem j).trans ?_⟩
  constructor
  · exact fun hj => ⟨List.mem_cons_of_mem k hj.1, hj.2⟩
  · rintro ⟨hj, hexp⟩
    refine ⟨(List.mem_cons.1 hj).resolve_left ?_, hexp⟩
    rintro rfl
    exact hk hexp.1

/-- The wakers a pass wakes from an expired timer on. -/
theorem Wakes.expired {ts : Timers} {k : ℕ} {rest registered woken : List ℕ} {now : UInt64}
    (hk : now > (ts.states k).expiredMonotonic)
    (h : Wakes { ts.set k { ts.states k with completed := true, waker := none } with
      registered := registered } now rest woken) :
    ∃ woken', Wakes ts now (k :: rest) woken' ∧
      wakers ts woken' = (ts.states k).waker.toList ++ wakers { ts.set k
        { ts.states k with completed := true, waker := none } with registered := registered } woken := by
  set ts' : Timers := { ts.set k { ts.states k with completed := true, waker := none } with
    registered := registered } with hts
  have hself : (ts'.states k).waker = none := by rw [hts]; simp
  have hother : ∀ j, j ≠ k → ts'.states j = ts.states j := fun j hj => ts.set_ne hj _
  -- the timer holds no waker any more, so it is not woken a second time
  have hnot : k ∉ woken := fun hin => ((h.mem k).1 hin).2.2 hself
  have hrest : ∀ j, j ∈ woken ↔ j ≠ k ∧ j ∈ rest ∧ now > (ts.states j).expiredMonotonic ∧
      (ts.states j).waker ≠ none := by
    intro j
    by_cases hj : j = k
    · rw [hj]
      exact ⟨fun hin => absurd hin hnot, fun hne => absurd rfl hne.1⟩
    · rw [h.mem j, hother j hj]
      exact ⟨fun hin => ⟨hj, hin⟩, fun hin => hin.2⟩
  have hwakers : wakers ts' woken = wakers ts woken := by
    refine List.filterMap_congr fun j hj => ?_
    rw [hother j ((hrest j).1 hj).1]
  rw [hwakers]
  cases hw : (ts.states k).waker with
  | none =>
    refine ⟨woken, ⟨h.sublist.cons k, h.nodup, fun j => ?_⟩, rfl⟩
    rw [hrest j, List.mem_cons]
    constructor
    · exact fun hj => ⟨.inr hj.2.1, hj.2.2⟩
    · rintro ⟨hj, hexp, hsome⟩
      have hne : j ≠ k := by
        rintro rfl
        exact hsome hw
      exact ⟨hne, hj.resolve_left hne, hexp, hsome⟩
  | some task =>
    refine ⟨k :: woken, ⟨h.sublist.cons_cons k, List.nodup_cons.2 ⟨hnot, h.nodup⟩, fun j => ?_⟩, ?_⟩
    · rw [List.mem_cons, hrest j, List.mem_cons]
      by_cases hj : j = k
      · rw [hj, hw]
        simp [hk]
      · simp [hj]
    · simp [wakers, hw]

/-- **The queue is rotated once.** The entries `rest` are still to be looked at, and `kept` have
been pushed back. -/
theorem rounds_checkOne (now : UInt64) (rest : List ℕ) : ∀ (kept : List ℕ) (ts : Timers),
    ts.registered = rest ++ kept → (rest ++ kept).length ≤ QUEUE_CAPACITY →
    ∃ woken, Wakes ts now rest woken ∧ ∀ (i : ℕ) (m : Machine TaskFuture) (pos : TaskFuture),
      rounds (fun _ => checkOne now) rest.length i ⟨m, ts, pos⟩ =
        (wakeAll m (wakers ts woken)).map fun m => ⟨m, ts.passed now rest kept, pos⟩ := by
  induction rest with
  | nil =>
    intro kept ts hr _
    refine ⟨[], ⟨.slnil, List.nodup_nil, by simp⟩, fun i m pos => ?_⟩
    have hsame : ts.passed now [] kept = ts := by
      simp only [Timers.passed, List.not_mem_nil, false_and, if_false, List.filter_nil, List.append_nil]
      rw [List.nil_append] at hr
      rw [← hr]
    rw [hsame]
    rfl
  | cons k rest ih =>
    intro kept ts hr hcap
    by_cases hk : now > (ts.states k).expiredMonotonic
    · -- the timer leaves the queue, its waker is woken first
      obtain ⟨woken, hw, hrun⟩ := ih kept
        { ts.set k { ts.states k with completed := true, waker := none } with registered := rest ++ kept } rfl
        (by simp only [List.cons_append, List.length_cons] at hcap; omega)
      obtain ⟨woken', hw', hwakers⟩ := hw.expired hk
      refine ⟨woken', hw', fun i m pos => ?_⟩
      have hone := checkOne_expired (s := ⟨m, ts, pos⟩) hr hk
      rw [List.length_cons, rounds, hone, hwakers, wakeAll_append]
      cases wakeAll m (ts.states k).waker.toList with
      | error p => rfl
      | ok m' =>
        refine (hrun (i + 1) m' pos).trans ?_
        rw [Timers.passed_expired ts rest kept _ hk]
        rfl
    · -- the timer goes behind those that have been kept
      obtain ⟨woken, hw, hrun⟩ := ih (kept ++ [k]) { ts with registered := rest ++ kept ++ [k] }
        (List.append_assoc ..)
        (by simp only [List.cons_append, List.length_cons, List.length_append, List.length_nil] at hcap ⊢; omega)
      refine ⟨woken, hw.live hk, fun i m pos => ?_⟩
      have hone := checkOne_live (s := ⟨m, ts, pos⟩) hr hcap hk
      rw [List.length_cons, rounds, hone]
      refine (hrun (i + 1) m pos).trans ?_
      rw [Timers.passed_live ts rest kept _ hk]
      rfl

/-- **A timer pass is exact.** For every content of the queue and every clock reading: the
queue afterwards holds the entries whose expiry is not before the reading, in their order; of
the other timers in the queue, and of these only, the state is completed and holds no
waker; and each waker such a state held is woken once. A pass stops early only if a woken
task finds the ready queue full. -/
theorem timer_pass_exact (s : TimerSys) (now : UInt64) (hcap : s.timers.registered.length ≤ QUEUE_CAPACITY) :
    ∃ woken ts', Wakes s.timers now s.timers.registered woken ∧
      ts'.registered = s.timers.registered.filter (fun k => (s.timers.states k).expiredMonotonic ≥ now) ∧
      (∀ k, ts'.states k =
        if k ∈ s.timers.registered ∧ now > (s.timers.states k).expiredMonotonic then
          { s.timers.states k with completed := true, waker := none }
        else s.timers.states k) ∧
      s.checkTimerfuturesFromInterrupt now =
        (wakeAll s.machine (wakers s.timers woken)).map (fun m => ⟨m, ts', s.pos⟩) ∧
      (s.machine.exec.tasks.length + woken.length ≤ QUEUE_CAPACITY →
        s.checkTimerfuturesFromInterrupt now = .ok ⟨s.machine.woken (wakers s.timers woken), ts', s.pos⟩) := by
  obtain ⟨woken, hw, hrun⟩ := rounds_checkOne now s.timers.registered [] s.timers (List.append_nil _).symm
    (by rwa [List.append_nil])
  have hpass : s.checkTimerfuturesFromInterrupt now =
      (wakeAll s.machine (wakers s.timers woken)).map
        (fun m => ⟨m, s.timers.passed now s.timers.registered [], s.pos⟩) := hrun 0 s.machine s.pos
  refine ⟨woken, s.timers.passed now s.timers.registered [], hw, List.nil_append _, fun k => rfl, hpass, ?_⟩
  intro hroom
  have hlen : (wakers s.timers woken).length ≤ woken.length := List.length_filterMap_le ..
  rw [hpass, wakeAll_ok (by omega)]
  rfl

/-- Timer 0 has expired and holds the waker of task 7, timer 1 has not, timer 2 has and holds
none. -/
def threeTimers : TimerSys where
  machine := .init
  timers := ⟨3, fun k => if k = 0 then ⟨false, 5, some 7⟩ else if k = 1 then ⟨false, 50, some 8⟩ else
    ⟨false, 9, none⟩, [0, 1, 2]⟩
  pos := .running

theorem timer_pass_exact_three : ∃ ts' : Timers, ts'.registered = [1] ∧
    (ts'.states 0).completed = true ∧ (ts'.states 1).completed = false ∧ (ts'.states 2).completed = true ∧
    threeTimers.checkTimerfuturesFromInterrupt 10 = .ok ⟨threeTimers.machine.woken [7], ts', .running⟩ := by
  obtain ⟨woken, ts', hw, hreg, hst, -, hok⟩ := timer_pass_exact threeTimers 10 (by decide)
  have hwoken : woken = [0] := by
    have hmem : ∀ k, k ∈ woken ↔ k = 0 := by
      intro k
      rw [hw.mem k]
      constructor
      · rintro ⟨hk, hexp, hsome⟩
        simp only [threeTimers, List.mem_cons, List.not_mem_nil, or_false] at hk
        rcases hk with rfl | rfl | rfl
        · rfl
        · exact absurd hexp (by decide)
        · exact absurd rfl hsome
      · rintro rfl
        exact ⟨by decide, by decide, by decide⟩
    exact List.perm_singleton.1 ((List.perm_ext_iff_of_nodup hw.nodup (List.nodup_singleton 0)).2 (by simpa using hmem))
  subst hwoken
  refine ⟨ts', hreg, ?_, ?_, ?_, hok (by decide)⟩ <;> rw [hst] <;> decide

/-! ## When a timer fires -/

/-- The timer exists and has its expiry time. -/
structure Armed (k : ℕ) (expiry : UInt64) (ts : Timers) : Prop where
  made : k < ts.created
  expiry : (ts.states k).expiredMonotonic = expiry

namespace Armed

variable {expiry : UInt64} {ts : Timers} {s s' : TimerSys}

theorem set (h : Armed k expiry ts) {timer : ℕ} {state : SharedState}
    (hsame : timer = k → state.expiredMonotonic = expiry) : Armed k expiry (ts.set timer state) := by
  refine ⟨h.made, ?_⟩
  by_cases hk : timer = k
  · rw [← hk, ts.set_self]
    exact hsame hk
  · rw [ts.set_ne (Ne.symm hk)]
    exact h.expiry

/-- A round of a pass completes the timer only if the reading exceeds its expiry time. -/
theorem checkOne (h : Armed k expiry s.timers) (hs : s.checkOne now = .ok s') :
    Armed k expiry s'.timers ∧
      ((s'.timers.states k).completed = true → (s.timers.states k).completed = true ∨ expiry < now) := by
  -- what the store to an expired timer does to timer `k`
  have hset : ∀ timer, now > (s.timers.states timer).expiredMonotonic →
      Armed k expiry (s.timers.set timer { s.timers.states timer with completed := true, waker := none }) ∧
      (((s.timers.set timer { s.timers.states timer with completed := true, waker := none }).states k).completed =
        true → (s.timers.states k).completed = true ∨ expiry < now) := by
    intro timer hexp
    refine ⟨h.set fun he => by rw [he]; exact h.expiry, fun hc => ?_⟩
    by_cases hk : k = timer
    · rw [← hk, h.expiry] at hexp
      exact .inr hexp
    · rw [s.timers.set_ne hk] at hc
      exact .inl hc
  cases Checked.of_checkOne hs with
  | empty => exact ⟨h, .inl⟩
  | expire _ hexp =>
    obtain ⟨harmed, hdone⟩ := hset _ hexp
    exact ⟨⟨harmed.made, harmed.expiry⟩, hdone⟩
  | wake _ hexp =>
    obtain ⟨harmed, hdone⟩ := hset _ hexp
    exact ⟨⟨harmed.made, harmed.expiry⟩, hdone⟩
  | keep => exact ⟨⟨h.made, h.expiry⟩, .inl⟩

theorem interrupt (h : Armed k expiry s.timers) (hs : s.checkTimerfuturesFromInterrupt now = .ok s') :
    Armed k expiry s'.timers ∧
      ((s'.timers.states k).completed = true → (s.timers.states k).completed = true ∨ expiry < now) := by
  refine forRange_inv (P := fun s' => Armed k expiry s'.timers ∧
    ((s'.timers.states k).completed = true → (s.timers.states k).completed = true ∨ expiry < now))
    (fun _ s₁ s₂ h₁ he => ?_) ⟨h, .inl⟩ hs
  obtain ⟨harmed, hdone⟩ := h₁.1.checkOne he
  refine ⟨harmed, fun hc => ?_⟩
  rcases hdone hc with hc | hexp
  · exact h₁.2 hc
  · exact .inr hexp

theorem poll (h : Armed k expiry ts) (timer cx : ℕ) : Armed k expiry (TimerFuture.poll timer cx ts).2 ∧
    ((TimerFuture.poll timer cx ts).2.states k).completed = (ts.states k).completed := by
  unfold TimerFuture.poll
  split
  · exact ⟨h, rfl⟩
  · refine ⟨h.set fun hk => by rw [hk]; exact h.expiry, ?_⟩
    by_cases hk : k = timer
    · rw [hk, ts.set_self]
    · rw [ts.set_ne hk]

/-- **A step completes the timer only if it is a pass whose reading exceeds the expiry.** -/
theorem step {o : TimerOp} (h : Armed k expiry s.timers) (hs : s.step o = .ok s') :
    Armed k expiry s'.timers ∧ ((s'.timers.states k).completed = true →
      (s.timers.states k).completed = true ∨ ∃ r, o = .interrupt r ∧ expiry < r) := by
  cases o with
  | spawn | run | pop | lock | finish =>
    simp only [TimerSys.step] at hs
    obtain ⟨m, -, rfl⟩ := map_eq_ok.1 hs
    exact ⟨h, .inl⟩
  | await timer =>
    obtain rfl := Except.ok.inj hs
    exact ⟨h, .inl⟩
  | new nowtime duration =>
    obtain ⟨⟨timer, ts⟩, hnew, rfl⟩ := map_eq_ok.1 hs
    obtain ⟨queue, -, hr⟩ := bind_eq_ok.1 hnew
    cases hr
    -- the new timer is another one
    have hk : k ≠ s.timers.created := h.made.ne
    have hstate : (s.timers.set s.timers.created ⟨false, nowtime + UInt64.ofNat duration.asNanos, none⟩).states k =
        s.timers.states k := s.timers.set_ne hk _
    refine ⟨⟨Nat.lt_succ_of_lt h.made, ?_⟩, fun hc => .inl ?_⟩
    · exact (congrArg SharedState.expiredMonotonic hstate).trans h.expiry
    · exact (congrArg SharedState.completed hstate).symm.trans hc
  | poll =>
    simp only [TimerSys.step] at hs
    split at hs
    · rename_i cx _ _ timer _ _
      obtain ⟨harmed, hdone⟩ := h.poll timer cx
      split at hs
      · rename_i ts hpoll
        rw [hpoll] at harmed hdone
        obtain rfl := Except.ok.inj hs
        exact ⟨harmed, fun hc => .inl (hdone.symm.trans hc)⟩
      · rename_i ts hpoll
        rw [hpoll] at harmed hdone
        obtain ⟨m, -, rfl⟩ := map_eq_ok.1 hs
        exact ⟨harmed, fun hc => .inl (hdone.symm.trans hc)⟩
    · obtain rfl := Except.ok.inj hs
      exact ⟨h, .inl⟩
  | interrupt r =>
    obtain ⟨harmed, hdone⟩ := h.interrupt hs
    refine ⟨harmed, fun hc => ?_⟩
    rcases hdone hc with hc | hexp
    · exact .inl hc
    · exact .inr ⟨r, rfl, hexp⟩

theorem run {ops : List TimerOp} (h : Armed k expiry s.timers) (hs : ops.foldlM TimerSys.step s = .ok s') :
    Armed k expiry s'.timers ∧ ((s'.timers.states k).completed = true →
      (s.timers.states k).completed = true ∨ ∃ r, TimerOp.interrupt r ∈ ops ∧ expiry < r) := by
  induction ops generalizing s with
  | nil =>
    obtain rfl := Except.ok.inj hs
    exact ⟨h, .inl⟩
  | cons o ops ih =>
    rw [List.foldlM_cons] at hs
    obtain ⟨s₁, h₁, hrest⟩ := bind_eq_ok.1 hs
    obtain ⟨harmed₁, hdone₁⟩ := h.step h₁
    obtain ⟨harmed, hdone⟩ := ih harmed₁ hrest
    refine ⟨harmed, fun hc => ?_⟩
    rcases hdone hc with hc | ⟨r, hr, hexp⟩
    · rcases hdone₁ hc with hc | ⟨r, rfl, hexp⟩
      · exact .inl hc
      · exact .inr ⟨r, List.mem_cons_self, hexp⟩
    · exact .inr ⟨r, List.mem_cons_of_mem o hr, hexp⟩

end Armed

/-- What `TimerFuture::new` leaves of the new timer. -/
theorem armed_new {s s' : TimerSys} {t₀ : UInt64} {d : Duration} (hs : s.step (.new t₀ d) = .ok s') :
    Armed s.timers.created (t₀ + UInt64.ofNat d.asNanos) s'.timers ∧
      (s'.timers.states s.timers.created).completed = false := by
  obtain ⟨⟨timer, ts⟩, hnew, rfl⟩ := map_eq_ok.1 hs
  obtain ⟨queue, -, hr⟩ := bind_eq_ok.1 hnew
  cases hr
  have hstate := s.timers.set_self s.timers.created ⟨false, t₀ + UInt64.ofNat d.asNanos, none⟩
  exact ⟨⟨Nat.lt_succ_self _, congrArg SharedState.expiredMonotonic hstate⟩,
    congrArg SharedState.completed hstate⟩

/-- A timer made at clock `t₀` for the duration `d` does not fire early, whatever happens
before and afterwards: only a pass whose reading exceeds `t₀ + d` completes it, and `poll`
is ready only after such a pass. -/
def NeverEarly (t₀ : UInt64) (d : Duration) : Prop :=
  ∀ s s₁ : TimerSys, s.step (.new t₀ d) = .ok s₁ →
    ∀ (ops : List TimerOp) (s₂ : TimerSys), ops.foldlM TimerSys.step s₁ = .ok s₂ →
      (∀ o s₃, s₂.step o = .ok s₃ → (s₂.timers.states s.timers.created).completed = false →
        (s₃.timers.states s.timers.created).completed = true →
        ∃ r, o = .interrupt r ∧ t₀.toNat + d.asNanos < r.toNat) ∧
      (∀ cx, (TimerFuture.poll s.timers.created cx s₂.timers).1 = .ready →
        ∃ r, TimerOp.interrupt r ∈ ops ∧ t₀.toNat + d.asNanos < r.toNat)

theorem poll_ready {timer cx : ℕ} {ts : Timers} (h : (TimerFuture.poll timer cx ts).1 = .ready) :
    (ts.states timer).completed = true := by
  unfold TimerFuture.poll at h
  split at h
  · assumption
  · cases h

/-- A pass right after the timer is made, on a fresh kernel. -/
theorem first_pass (t₀ r : UInt64) (d : Duration) (hr : t₀ + UInt64.ofNat d.asNanos < r) :
    ∃ s₁ s₂, TimerSys.init.step (.new t₀ d) = .ok s₁ ∧ s₁.step (.interrupt r) = .ok s₂ ∧
      (s₂.timers.states 0).completed = true := by
  set ts : Timers := { TimerSys.init.timers.set 0 ⟨false, t₀ + UInt64.ofNat d.asNanos, none⟩ with
    created := 1, registered := [0] } with hts
  have hstate : ts.states 0 = ⟨false, t₀ + UInt64.ofNat d.asNanos, none⟩ :=
    TimerSys.init.timers.set_self 0 _
  set done : Timers := { ts.set 0 { ts.states 0 with completed := true, waker := none } with
    registered := [] } with hdone
  have hone : checkOne r ⟨.init, ts, .running⟩ = .ok ⟨.init, done, .running⟩ := by
    rw [checkOne_expired (s := ⟨.init, ts, .running⟩) rfl (by rw [hstate]; exact hr), hstate, hdone, hstate]
    rfl
  refine ⟨⟨.init, ts, .running⟩, ⟨.init, done, .running⟩, rfl, ?_, ?_⟩
  · change (checkOne r ⟨.init, ts, .running⟩).bind (rounds _ 0 1) = .ok _
    rw [hone]
    rfl
  · exact congrArg SharedState.completed (ts.set_self ..)

/-- **When a timer never fires early.** For every clock reading and every duration: whatever
the kernel does, the timer is completed by passes after `t₀ + d` only, if and only if the
sum, in nanoseconds, fits 64 bits, or wraps to the largest value, which no reading exceeds. -/
theorem timer_never_early_iff (t₀ : UInt64) (d : Duration) :
    NeverEarly t₀ d ↔ t₀.toNat + d.asNanos < 2 ^ 64 ∨ (t₀.toNat + d.asNanos) % 2 ^ 64 = 2 ^ 64 - 1 := by
  have hexpiry : (t₀ + UInt64.ofNat d.asNanos).toNat = (t₀.toNat + d.asNanos) % 2 ^ 64 := by
    rw [UInt64.toNat_add, UInt64.toNat_ofNat', Nat.add_mod_mod]
  constructor
  · intro h
    by_contra hno
    rw [not_or] at hno
    obtain ⟨hover, hmax⟩ := hno
    -- the largest clock value exceeds the wrapped expiry, but not the sum
    have hr : t₀ + UInt64.ofNat d.asNanos < UInt64.ofNat (2 ^ 64 - 1) := by
      rw [UInt64.lt_iff_toNat_lt, hexpiry, UInt64.toNat_ofNat']
      omega
    obtain ⟨s₁, s₂, hnew, hpass, hdone⟩ := first_pass t₀ _ d hr
    have hopen := (armed_new hnew).2
    obtain ⟨r, ho, hlate⟩ := (h _ s₁ hnew [] s₁ rfl).1 _ s₂ hpass hopen hdone
    rw [← TimerOp.interrupt.inj ho, UInt64.toNat_ofNat'] at hlate
    omega
  · intro hcond
    -- a reading that exceeds the expiry exceeds the sum
    have hlate : ∀ r : UInt64, t₀ + UInt64.ofNat d.asNanos < r → t₀.toNat + d.asNanos < r.toNat := by
      intro r hr
      rw [UInt64.lt_iff_toNat_lt, hexpiry] at hr
      have hbound := r.toNat_lt
      rcases hcond with hfits | hmax
      · rwa [Nat.mod_eq_of_lt hfits] at hr
      · omega
    intro s s₁ hnew ops s₂ hops
    obtain ⟨harmed₁, hopen⟩ := armed_new hnew
    obtain ⟨harmed, hdone⟩ := harmed₁.run hops
    refine ⟨fun o s₃ hs hbefore hafter => ?_, fun cx hready => ?_⟩
    · rcases (harmed.step hs).2 hafter with hc | ⟨r, ho, hexp⟩
      · rw [hbefore] at hc
        cases hc
      · exact ⟨r, ho, hlate r hexp⟩
    · rcases hdone (poll_ready hready) with hc | ⟨r, hr, hexp⟩
      · rw [hopen] at hc
        cases hc
      · exact ⟨r, hr, hlate r hexp⟩

/-- **A duration of `2 ^ 64` nanoseconds, some 585 years, is cut to nothing**: a timer made at
clock 1000 is completed by a pass at 1001. -/
theorem timer_fires_early : Duration.asNanos ⟨18446744073, 709551616⟩ = 2 ^ 64 ∧
    ∃ s₁ s₂, TimerSys.init.step (.new 1000 ⟨18446744073, 709551616⟩) = .ok s₁ ∧
      s₁.step (.interrupt 1001) = .ok s₂ ∧ (s₁.timers.states 0).completed = false ∧
      (s₂.timers.states 0).completed = true ∧ (TimerFuture.poll 0 0 s₂.timers).1 = .ready := by
  obtain ⟨s₁, s₂, hnew, hpass, hdone⟩ := first_pass 1000 1001 ⟨18446744073, 709551616⟩ (by decide)
  refine ⟨by decide, s₁, s₂, hnew, hpass, (armed_new hnew).2, hdone, ?_⟩
  rw [TimerFuture.poll, if_pos hdone]

end TimerSys

end Urchin
