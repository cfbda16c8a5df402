import Urchin.Exec.Outcome

/-!
# The executor (`asynchronous/executor.rs`)

`Executor` is the ready queue and the slots of the tasks; a task (an `Arc<Task>`)
is its number in the order of spawning. The queue is a bounded FIFO, and a push into
a full one panics.

`Machine` is an executor with the calls of `run` under way, in small steps: a future
is out of its slot while it is polled, and between any two steps tasks may be spawned
and woken by anyone. A future is polled by code of its own, so what a poll returns is
up to the step; a future may also call `run` itself. There is one processor, so of
several calls under way only the last one moves.
-/

namespace Urchin

open Exec

/-- The capacity of the kernel's `ArrayQueue`s. -/
def QUEUE_CAPACITY : ℕ := 100000

/-- `ArrayQueue::push` and its `expect`. -/
def arrayPush {α : Type*} (queue : List α) (x : α) : Except Panic (List α) :=
  if queue.length < QUEUE_CAPACITY then .ok (queue ++ [x])
  else .error (.explicit "too many tasks queued")

theorem arrayPush_ok {α : Type*} {queue queue' : List α} {x : α} (h : arrayPush queue x = .ok queue') :
    queue' = queue ++ [x] := by
  unfold arrayPush at h
  split at h
  · exact (Except.ok.inj h).symm
  · cases h

/-- What `poll` returns; a pending future goes on with what it has become. -/
inductive Poll (Φ : Type*) where
  | pending (f : Φ)
  | ready

/-- The ready queue, and the `future` field of every task. -/
structure Executor (Φ : Type*) where
  tasks : List ℕ
  slots : List (Option Φ)

namespace Executor

variable {Φ : Type*}

def new : Executor Φ := ⟨[], []⟩

/-- `wake_by_ref` of a task. -/
def wakeByRef (e : Executor Φ) (task : ℕ) : Except Panic (Executor Φ) :=
  (arrayPush e.tasks task).map fun tasks => { e with tasks := tasks }

def spawn (e : Executor Φ) (future : Φ) : Except Panic (Executor Φ) :=
  (arrayPush e.tasks e.slots.length).map fun tasks =>
    { tasks := tasks, slots := e.slots ++ [some future] }

/-- `*future_slot = value`. -/
def setSlot (e : Executor Φ) (task : ℕ) (value : Option Φ) : Executor Φ :=
  { e with slots := e.slots.set task value }

/-- What is in the task's slot. -/
def slot (e : Executor Φ) (task : ℕ) : Option Φ := (e.slots[task]?).join

/-- What a poll leaves in the slot that was emptied for it. -/
def putBack (e : Executor Φ) (task : ℕ) : Poll Φ → Executor Φ
  | .pending f => e.setSlot task (some f)
  | .ready => e

end Executor

/-! ## `run` in small steps -/

/-- Where a call of `run` is. -/
inductive RunPc (Φ : Type*) where
  /-- At the head of the loop. -/
  | looping
  /-- It has popped a task and is about to lock its slot. -/
  | popped (task : ℕ)
  /-- It polls a future, and holds the lock of its slot. -/
  | polling (task : ℕ) (future : Φ)

/-- The task whose future the call polls. -/
def RunPc.polls {Φ : Type*} : RunPc Φ → Option ℕ
  | .polling task _ => some task
  | .looping | .popped _ => none

/-- What happened, for the history of a run. -/
inductive Event (Φ : Type*) where
  | spawned (task : ℕ) (future : Φ)
  | woken (task : ℕ)
  | polled (task : ℕ)
  | pending (task : ℕ) (future : Φ)
  | ready (task : ℕ)
  | returned
  deriving DecidableEq

/-- An executor, the calls of `run` under way (the last one first), and the history,
oldest event first. -/
structure Machine (Φ : Type*) where
  exec : Executor Φ
  calls : List (RunPc Φ)
  log : List (Event Φ)

inductive MachineOp (Φ : Type*) where
  | spawn (future : Φ)
  | wake (task : ℕ)
  | run
  | pop
  | lock
  | pollEnd (result : Poll Φ)

namespace Machine

variable {Φ : Type*}

def init : Machine Φ := ⟨.new, [], []⟩

/-- The slot of the task is locked: one of the calls under way polls its future. -/
def Locked (calls : List (RunPc Φ)) (task : ℕ) : Prop := some task ∈ calls.map RunPc.polls

instance (calls : List (RunPc Φ)) (task : ℕ) : Decidable (Locked calls task) :=
  inferInstanceAs (Decidable (_ ∈ _))

/-- A task can be woken once it is spawned; `run` is called by nobody or by the
future being polled; `lock` waits for the lock. -/
def Allowed (m : Machine Φ) : MachineOp Φ → Prop
  | .spawn _ => True
  | .wake task => task < m.exec.slots.length
  | .run => m.calls = [] ∨ ∃ task f rest, m.calls = .polling task f :: rest
  | .pop => ∃ rest, m.calls = .looping :: rest
  | .lock => ∃ task rest, m.calls = .popped task :: rest ∧ ¬ Locked m.calls task
  | .pollEnd _ => ∃ task f rest, m.calls = .polling task f :: rest

instance : ∀ (m : Machine Φ) (op : MachineOp Φ), Decidable (m.Allowed op)
  | _, .spawn _ => isTrue trivial
  | m, .wake task => inferInstanceAs (Decidable (task < m.exec.slots.length))
  | ⟨_, [], _⟩, .run => isTrue (.inl rfl)
  | ⟨_, .polling task f :: rest, _⟩, .run => isTrue (.inr ⟨task, f, rest, rfl⟩)
  | ⟨_, .looping :: _, _⟩, .run | ⟨_, .popped _ :: _, _⟩, .run => isFalse (by simp [Allowed])
  | ⟨_, .looping :: rest, _⟩, .pop => isTrue ⟨rest, rfl⟩
  | ⟨_, [], _⟩, .pop | ⟨_, .popped _ :: _, _⟩, .pop | ⟨_, .polling _ _ :: _, _⟩, .pop =>
    isFalse (by simp [Allowed])
  | ⟨_, .popped task :: rest, _⟩, .lock =>
    decidable_of_iff (¬ Locked (.popped task :: rest) task) (by simp [Allowed])
  | ⟨_, [], _⟩, .lock | ⟨_, .looping :: _, _⟩, .lock | ⟨_, .polling _ _ :: _, _⟩, .lock =>
    isFalse (by simp [Allowed])
  | ⟨_, .polling task f :: rest, _⟩, .pollEnd _ => isTrue ⟨task, f, rest, rfl⟩
  | ⟨_, [], _⟩, .pollEnd _ | ⟨_, .looping :: _, _⟩, .pollEnd _ | ⟨_, .popped _ :: _, _⟩, .pollEnd _ =>
    isFalse (by simp [Allowed])

def step (m : Machine Φ) : MachineOp Φ → Except Panic (Machine Φ)
  | .spawn future =>
    (m.exec.spawn future).map fun exec =>
      { m with exec := exec, log := m.log ++ [.spawned m.exec.slots.length future] }
  | .wake task =>
    (m.exec.wakeByRef task).map fun exec => { m with exec := exec, log := m.log ++ [.woken task] }
  | .run => .ok { m with calls := .looping :: m.calls }
  | .pop =>
    match m.exec.tasks with
    | task :: tasks =>
      .ok { m with exec := { m.exec with tasks := tasks }, calls := .popped task :: m.calls.tail }
    | [] => .ok { m with calls := m.calls.tail, log := m.log ++ [.returned] }
  | .lock =>
    match m.calls with
    | .popped task :: rest =>
      match m.exec.slot task with
      | some future =>
        .ok { exec := m.exec.setSlot task none, calls := .polling task future :: rest,
              log := m.log ++ [.polled task] }
      | none => .ok { m with calls := .looping :: rest }
    | _ => .ok m
  | .pollEnd result =>
    match m.calls with
    | .polling task _ :: rest =>
      .ok { exec := m.exec.putBack task result, calls := .looping :: rest,
            log := m.log ++ [match result with | .pending f => .pending task f | .ready => .ready task] }
    | _ => .ok m

end Machine

end Urchin
