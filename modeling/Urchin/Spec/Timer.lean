import Urchin.Spec.Executor

/-!
# Timers (`asynchronous/timer.rs`)

A timer state (an `Arc<SharedState>`) is its number in the order of creation; the
queue `REGISTERED_TIMER_STATES` holds such numbers. `TimerFuture.new` and
`TimerFuture.poll` are the future's own code, and `checkTimerfuturesFromInterrupt` is
what the timer interrupt runs.

`TimerSys` is an executor whose tasks are sequential programs that await one
`TimerFuture` at a time, as those of `start_rust`. What a task does between two awaits
is up to the steps: it may make timers, await one of them, or end. The interrupt comes
between the calls of `run`, which is called with interrupts disabled. Every reading of
the clock is given with the step that makes it.
-/

namespace Urchin

open Exec

/-- `core::time::Duration`. -/
structure Duration where
  secs : UInt64
  nanos : UInt32

/-- `as_nanos`, in 128 bits, which hold it. -/
def Duration.asNanos (d : Duration) : ℕ := d.secs.toNat * 1000000000 + d.nanos.toNat

structure SharedState where
  completed : Bool
  expiredMonotonic : UInt64
  waker : Option ℕ

/-- The timer states made so far, and `REGISTERED_TIMER_STATES`. -/
structure Timers where
  created : ℕ
  states : ℕ → SharedState
  registered : List ℕ

/-- A store to one timer state. -/
def Timers.set (ts : Timers) (timer : ℕ) (state : SharedState) : Timers :=
  { ts with states := Function.update ts.states timer state }

@[simp] theorem Timers.set_created (ts : Timers) (timer : ℕ) (state : SharedState) :
    (ts.set timer state).created = ts.created := rfl

@[simp] theorem Timers.set_registered (ts : Timers) (timer : ℕ) (state : SharedState) :
    (ts.set timer state).registered = ts.registered := rfl

@[simp] theorem Timers.set_self (ts : Timers) (timer : ℕ) (state : SharedState) :
    (ts.set timer state).states timer = state := Function.update_self ..

theorem Timers.set_ne (ts : Timers) {timer k : ℕ} (h : k ≠ timer) (state : SharedState) :
    (ts.set timer state).states k = ts.states k := Function.update_of_ne h ..

namespace TimerFuture

/-- `TimerFuture::new` at clock `nowtime`: the new timer state, which is registered
before anyone polls it. -/
def new (nowtime : UInt64) (duration : Duration) (ts : Timers) : Except Panic (ℕ × Timers) := do
  let expiretime := nowtime + UInt64.ofNat duration.asNanos
  let registered ← arrayPush ts.registered ts.created
  .ok (ts.created,
    { ts.set ts.created ⟨false, expiretime, none⟩ with
      created := ts.created + 1
      registered := registered })

/-- `poll` with the waker of task `cx`. -/
def poll (timer cx : ℕ) (ts : Timers) : Poll Unit × Timers :=
  if (ts.states timer).completed then (.ready, ts)
  else (.pending (), ts.set timer { ts.states timer with waker := some cx })

end TimerFuture

/-- Where the code of a task stands: at a stretch of its own, or awaiting a timer. -/
inductive TaskFuture where
  | running
  | suspended (timer : ℕ)
  deriving DecidableEq

/-- The executor, the timers, and where the code of the task that is polled stands. -/
structure TimerSys where
  machine : Machine TaskFuture
  timers : Timers
  pos : TaskFuture

inductive TimerOp where
  | spawn
  | run
  | pop
  | lock
  | new (nowtime : UInt64) (duration : Duration)
  | await (timer : ℕ)
  | poll
  | finish
  | interrupt (nowtime : UInt64)

namespace TimerSys

def init : TimerSys := ⟨.init, ⟨0, fun _ => ⟨true, 0, none⟩, []⟩, .running⟩

/-- One round of the interrupt's loop. -/
def checkOne (nowtime : UInt64) (s : TimerSys) : Except Panic TimerSys :=
  match s.timers.registered with
  | timer :: rest =>
    let state := s.timers.states timer
    if nowtime > state.expiredMonotonic then
      let timers := { s.timers.set timer { state with completed := true, waker := none } with
        registered := rest }
      match state.waker with
      | some task => (s.machine.step (.wake task)).map fun m => { s with machine := m, timers := timers }
      | none => .ok { s with timers := timers }
    else
      (arrayPush rest timer).map fun queue => { s with timers := { s.timers with registered := queue } }
  | [] => .ok s

/-- What a round of the interrupt's loop can do: with no timer left; with one that has
expired, without or with a waker; and with one that has not. -/
inductive Checked (nowtime : UInt64) (s : TimerSys) : TimerSys → Prop
  | empty : Checked nowtime s s
  | expire {timer : ℕ} {rest : List ℕ} (hr : s.timers.registered = timer :: rest)
      (hexp : nowtime > (s.timers.states timer).expiredMonotonic)
      (hw : (s.timers.states timer).waker = none) : Checked nowtime s { s with
      timers := { s.timers.set timer { s.timers.states timer with completed := true, waker := none } with
        registered := rest } }
  | wake {timer task : ℕ} {rest : List ℕ} {m : Machine TaskFuture} (hr : s.timers.registered = timer :: rest)
      (hexp : nowtime > (s.timers.states timer).expiredMonotonic)
      (hw : (s.timers.states timer).waker = some task) (hm : s.machine.step (.wake task) = .ok m) :
      Checked nowtime s { s with
      machine := m
      timers := { s.timers.set timer { s.timers.states timer with completed := true, waker := none } with
        registered := rest } }
  | keep {timer : ℕ} {rest : List ℕ} (hr : s.timers.registered = timer :: rest)
      (hexp : ¬ nowtime > (s.timers.states timer).expiredMonotonic) : Checked nowtime s { s with
      timers := { s.timers with registered := rest ++ [timer] } }

theorem Checked.of_checkOne {nowtime : UInt64} {s s' : TimerSys} (h : s.checkOne nowtime = .ok s') :
    Checked nowtime s s' := by
  unfold checkOne at h
  split at h
  · rename_i timer rest hr
    dsimp only at h
    split at h
    · rename_i hexp
      split at h
      · rename_i task hw
        obtain ⟨m, hm, rfl⟩ := map_eq_ok.1 h
        exact .wake hr hexp hw hm
      · rename_i hw
        obtain rfl := Except.ok.inj h
        exact .expire hr hexp hw
    · rename_i hexp
      obtain ⟨queue, hq, rfl⟩ := map_eq_ok.1 h
      rw [arrayPush_ok hq]
      exact .keep hr hexp
  · obtain rfl := Except.ok.inj h
    exact .empty

/-- `check_timerfutures_from_interrupt` at clock `nowtime`. -/
def checkTimerfuturesFromInterrupt (nowtime : UInt64) (s : TimerSys) : Except Panic TimerSys :=
  forRange 0 s.timers.registered.length (fun _ => checkOne nowtime) s

/-- A task is polled: its code is running. -/
def Polling (s : TimerSys) : Prop := ∃ t f, s.machine.calls = [.polling t f]

instance : ∀ s : TimerSys, Decidable s.Polling
  | ⟨⟨_, [.polling t f], _⟩, _, _⟩ => isTrue ⟨t, f, rfl⟩
  | ⟨⟨_, [], _⟩, _, _⟩ | ⟨⟨_, [.looping], _⟩, _, _⟩ | ⟨⟨_, [.popped _], _⟩, _, _⟩ |
    ⟨⟨_, _ :: _ :: _, _⟩, _, _⟩ => isFalse (by simp [Polling])

/-- A task awaits a timer that no other task awaits: a `TimerFuture` has one owner. The
interrupt does not come during `run`. -/
def Allowed (s : TimerSys) : TimerOp → Prop
  | .spawn | .new _ _ => True
  | .run => s.machine.calls = []
  | .pop => s.machine.Allowed .pop
  | .lock => s.machine.Allowed .lock
  | .await timer => s.Polling ∧ s.pos = .running ∧ timer < s.timers.created ∧
      some (.suspended timer) ∉ s.machine.exec.slots
  | .poll => s.Polling ∧ s.pos ≠ .running
  | .finish => s.Polling ∧ s.pos = .running
  | .interrupt _ => s.machine.calls = []

instance : ∀ (s : TimerSys) (o : TimerOp), Decidable (s.Allowed o)
  | _, .spawn | _, .new _ _ => isTrue trivial
  | s, .run | s, .interrupt _ => decidable_of_iff (s.machine.calls.isEmpty = true) List.isEmpty_iff
  | s, .pop => inferInstanceAs (Decidable (s.machine.Allowed .pop))
  | s, .lock => inferInstanceAs (Decidable (s.machine.Allowed .lock))
  | _, .await _ | _, .poll | _, .finish => inferInstanceAs (Decidable (_ ∧ _))

def step (s : TimerSys) : TimerOp → Except Panic TimerSys
  | .spawn => (s.machine.step (.spawn .running)).map fun m => { s with machine := m }
  | .run => (s.machine.step .run).map fun m => { s with machine := m }
  | .pop => (s.machine.step .pop).map fun m => { s with machine := m }
  | .lock => (s.machine.step .lock).map fun m => { s with
      machine := m
      pos := match m.calls with
        | .polling _ f :: _ => f
        | _ => s.pos }
  | .new nowtime duration =>
    (TimerFuture.new nowtime duration s.timers).map fun r => { s with timers := r.2 }
  | .await timer => .ok { s with pos := .suspended timer }
  | .poll =>
    match s.machine.calls, s.pos with
    | .polling t _ :: _, .suspended timer =>
      match TimerFuture.poll timer t s.timers with
      | (.ready, timers) => .ok { s with timers := timers, pos := .running }
      | (.pending _, timers) =>
        (s.machine.step (.pollEnd (.pending (.suspended timer)))).map fun m =>
          { s with machine := m, timers := timers }
    | _, _ => .ok s
  | .finish => (s.machine.step (.pollEnd .ready)).map fun m => { s with machine := m }
  | .interrupt nowtime => s.checkTimerfuturesFromInterrupt nowtime

/-- The timer state holds the waker of the task and has not completed. -/
def Holds (s : TimerSys) (task timer : ℕ) : Bool :=
  (s.timers.states timer).waker == some task && !(s.timers.states timer).completed

end TimerSys

end Urchin
