import CppProject.ThreadPool.Pool
import CppProject.Lib.Transition
import Mathlib.Data.Fintype.Basic
import Mathlib.Tactic.Simps.Basic

/-!
# Threads of the pool

The pool with `n` workers, any set `P` of producer threads and any set `D` of threads that call
`ThreadPool_Destroy` once each. A step is one critical section, or one action outside the mutex:
calling a callback, its return, freeing a node, and the broadcasts, joins and releases of
`ThreadPool_Destroy`. The mutex is free between steps.

A signal wakes a nonempty set of waiting threads if there is any, a broadcast all of them, and
any waiting thread may wake spuriously. Each producer makes a given number of calls; `malloc`
returns any address that is not in use, or null. Workers have been created by `Init` and
callbacks may return at any time.

The log is bookkeeping: no section reads it. A job is identified by the producer and the number
of the call that added it.
-/

namespace CppProject.ThreadPool

/-- The call that adds a job: its producer and its number among the calls of that producer. -/
abbrev Ticket (P : Type*) := P × ℕ

/-- Where a worker is in `threadpoll_function`. -/
inductive WorkerPhase
  | ready
  | waiting
  | woken
  | holding (pjob : JobPtr)
  | running (pjob : JobPtr)
  | called (pjob : JobPtr)
  | exited
  deriving DecidableEq

/-- Wake if waiting. -/
def WorkerPhase.wake : WorkerPhase → WorkerPhase
  | .waiting => .woken
  | phase => phase

/-- Where a producer is: between calls, or in `pthread_cond_wait` of one. -/
inductive ProducerPhase
  | idle
  | waiting
  | woken
  deriving DecidableEq

/-- A producer, with the number of calls it has finished and of those it will make. -/
structure Producer where
  phase : ProducerPhase
  made : ℕ
  quota : ℕ

/-- Move within the current call. -/
def Producer.moveTo (producer : Producer) (phase : ProducerPhase) : Producer :=
  { producer with phase := phase }

/-- The current call returns. -/
def Producer.finishCall (producer : Producer) : Producer :=
  { producer with phase := .idle, made := producer.made + 1 }

/-- Wake if waiting. -/
def Producer.wake (producer : Producer) : Producer :=
  if producer.phase = .waiting then producer.moveTo .woken else producer

/-- What `ThreadPool_Destroy` releases, in this order. -/
inductive Resource
  | mutex
  | condQueueEmpty
  | condQueueNotEmpty
  | condQueueNotFull
  | pthreads
  deriving DecidableEq

/-- The order in which `ThreadPool_Destroy` releases them. -/
def resources : List Resource :=
  [.mutex, .condQueueEmpty, .condQueueNotEmpty, .condQueueNotFull, .pthreads]

/-- Where a call of `ThreadPool_Destroy` is. It returns at once if the pool was closed before
(`refused`), else after the teardown (`returned`). -/
inductive DestroyPhase
  | start
  | waiting
  | woken
  | broadcastNotEmpty
  | broadcastNotFull
  | join (i : ℕ)
  | release (rest : List Resource)
  | freeJobs
  | returned
  | refused
  deriving DecidableEq

/-- What has happened so far, oldest first. -/
structure Log (n : ℕ) (P : Type*) where
  enqueued : List (Ticket P)
  rejected : List (Ticket P)
  dequeued : List (Ticket P × Fin n)
  invoked : List (Ticket P × Fin n)
  completed : List (Ticket P × Fin n)
  freed : List (Ticket P)

/-- The state of all threads and of what they share. -/
structure State (n : ℕ) (P D : Type*) where
  pool : Pool (Ticket P)
  worker : Fin n → WorkerPhase
  producer : P → Producer
  destroyer : D → DestroyPhase
  released : List Resource
  log : Log n P

variable {n : ℕ} {P D : Type*}

/-- After `Init`, with the number of calls each producer will make. -/
def State.new (n : ℕ) (D : Type*) (queueMaxNum : ℤ) (quota : P → ℕ) : State n P D where
  pool := Pool.new queueMaxNum
  worker := fun _ => .ready
  producer := fun p => ⟨.idle, 0, quota p⟩
  destroyer := fun _ => .start
  released := []
  log := ⟨[], [], [], [], [], []⟩

namespace State

variable (s : State n P D)

/-- `pthread_cond_broadcast(&m_cond_QueueNotEmpty)`. -/
@[simps] def wakeWorkers : State n P D :=
  { s with worker := fun i => (s.worker i).wake }

/-- `pthread_cond_broadcast(&m_cond_QueueNotFull)`. -/
@[simps] def wakeProducers : State n P D :=
  { s with producer := fun p => (s.producer p).wake }

/-- `pthread_cond_signal(&m_cond_QueueEmpty)`, with the callers it wakes. -/
@[simps] def wakeDestroyers (wake : D → Bool) : State n P D :=
  { s with destroyer := fun d => if wake d then .woken else s.destroyer d }

/-- The job a pointer refers to, for the log. -/
def ticketAt (pjob : JobPtr) : List (Ticket P) := ((s.pool.heap pjob).map Job.callback).toList

variable [DecidableEq P] [DecidableEq D]

/-- The producer's current call. -/
def ticket (p : P) : Ticket P := (p, (s.producer p).made)

/-- Move one worker. -/
@[simps] def setWorker (i : Fin n) (phase : WorkerPhase) : State n P D :=
  { s with worker := Function.update s.worker i phase }

/-- Move one producer within its call. -/
@[simps] def setProducer (p : P) (phase : ProducerPhase) : State n P D :=
  { s with producer := Function.update s.producer p ((s.producer p).moveTo phase) }

/-- A call of a producer returns. -/
@[simps] def finishCall (p : P) : State n P D :=
  { s with producer := Function.update s.producer p (s.producer p).finishCall }

/-- Move one caller of `ThreadPool_Destroy`. -/
@[simps] def setDestroyer (d : D) (phase : DestroyPhase) : State n P D :=
  { s with destroyer := Function.update s.destroyer d phase }

end State

/-- The steps of the threads. The second group is the spurious wakeups. -/
inductive Label (n : ℕ) (P D : Type*)
  | addJob (p : P) (pjob : Option JobPtr)
  | work (i : Fin n) (wake : D → Bool)
  | invoke (i : Fin n)
  | callbackReturn (i : Fin n)
  | freeJob (i : Fin n)
  | destroy (d : D)
  | spuriousWorker (i : Fin n)
  | spuriousProducer (p : P)
  | spuriousDestroyer (d : D)

/-- A step a thread takes by itself. -/
def Label.IsOwn : Label n P D → Prop
  | .spuriousWorker _ => False
  | .spuriousProducer _ => False
  | .spuriousDestroyer _ => False
  | _ => True

section Steps

variable [DecidableEq P] [DecidableEq D] (s : State n P D)

/-- A producer can start a call, or come back from waiting. -/
def State.CanAdd (p : P) : Prop :=
  (s.producer p).phase = .woken ∨ (s.producer p).phase = .idle ∧ (s.producer p).made < (s.producer p).quota

instance (p : P) : Decidable (s.CanAdd p) := inferInstanceAs (Decidable (_ ∨ _))

/-- After a section of `ThreadPool_AddJob`. -/
def State.afterAddJob (p : P) : AddJobOutcome × Pool (Ticket P) → State n P D
  | (.wait, pool) => { s with pool := pool }.setProducer p .waiting
  | (.reject, pool) => { { s with pool := pool }.finishCall p with
      log.rejected := s.log.rejected ++ [s.ticket p] }
  | (.accept broadcastNotEmpty, pool) =>
    let s' := { s with pool := pool }
    { (if broadcastNotEmpty then s'.wakeWorkers else s').finishCall p with
      log.enqueued := s.log.enqueued ++ [s.ticket p] }

/-- A section of `ThreadPool_AddJob`. -/
def State.addJob (p : P) (pjob : Option JobPtr) : Option (State n P D) :=
  if s.CanAdd p then (addJobSection s.pool (s.ticket p) pjob).map (s.afterAddJob p) else none

/-- After a section of a worker. -/
def State.afterWork (i : Fin n) (wake : D → Bool) : WorkOutcome × Pool (Ticket P) → State n P D
  | (.wait, pool) => { s with pool := pool }.setWorker i .waiting
  | (.exit, pool) => { s with pool := pool }.setWorker i .exited
  | (.take pjob signalEmpty broadcastNotFull, pool) =>
    let s' := { s with pool := pool }
    let s' := if signalEmpty then s'.wakeDestroyers wake else s'
    let s' := if broadcastNotFull then s'.wakeProducers else s'
    { s'.setWorker i (.holding pjob) with
      log.dequeued := s.log.dequeued ++ (s.ticketAt pjob).map fun t => (t, i) }

/-- A worker at the top of its loop or back from waiting. -/
def State.work (i : Fin n) (wake : D → Bool) : Option (State n P D) :=
  match s.worker i with
  | .ready => (workSection s.pool).map (s.afterWork i wake)
  | .woken => (workSection s.pool).map (s.afterWork i wake)
  | _ => none

/-- `(*(pjob->callback_function))(pjob->arg)` starts. -/
def State.invoke (i : Fin n) : Option (State n P D) :=
  match s.worker i with
  | .holding pjob => (s.pool.heap pjob).map fun job =>
      { s.setWorker i (.running pjob) with log.invoked := s.log.invoked ++ [(job.callback, i)] }
  | _ => none

/-- The callback returns. -/
def State.callbackReturn (i : Fin n) : Option (State n P D) :=
  match s.worker i with
  | .running pjob => (s.pool.heap pjob).map fun job =>
      { s.setWorker i (.called pjob) with log.completed := s.log.completed ++ [(job.callback, i)] }
  | _ => none

/-- `free(pjob)`. -/
def State.freeJob (i : Fin n) : Option (State n P D) :=
  match s.worker i with
  | .called pjob => (s.pool.heap pjob).map fun job =>
      { s.setWorker i .ready with
        pool.heap := Function.update s.pool.heap pjob none
        log.freed := s.log.freed ++ [job.callback] }
  | _ => none

/-- After a section of `ThreadPool_Destroy`. -/
def State.afterDestroySection (d : D) : DestroyOutcome × Pool (Ticket P) → State n P D
  | (.refuse, pool) => { s with pool := pool }.setDestroyer d .refused
  | (.wait, pool) => { s with pool := pool }.setDestroyer d .waiting
  | (.close, pool) => { s with pool := pool }.setDestroyer d .broadcastNotEmpty

/-- One step of a call of `ThreadPool_Destroy`. -/
def State.destroy (d : D) : Option (State n P D) :=
  match s.destroyer d with
  | .start => some (s.afterDestroySection d (destroySection s.pool))
  | .woken => some (s.afterDestroySection d (destroyLoop s.pool))
  | .broadcastNotEmpty => some (s.wakeWorkers.setDestroyer d .broadcastNotFull)
  | .broadcastNotFull => some (s.wakeProducers.setDestroyer d (.join 0))
  | .join i =>
    if h : i < n then
      match s.worker ⟨i, h⟩ with
      | .exited => some (s.setDestroyer d (.join (i + 1)))
      | _ => none
    else some (s.setDestroyer d (.release resources))
  | .release [] => some (s.setDestroyer d .freeJobs)
  | .release (r :: rest) => some { s.setDestroyer d (.release rest) with released := s.released ++ [r] }
  | .freeJobs =>
    match s.pool.mHead with
    | none => some (s.setDestroyer d .returned)
    | some mj => (freeHead s.pool mj).map fun pool =>
        { s with pool := pool, log.freed := s.log.freed ++ s.ticketAt mj }
  | _ => none

/-- The state after a step, if the thread can take it. -/
def State.next : Label n P D → Option (State n P D)
  | .addJob p pjob => s.addJob p pjob
  | .work i wake => s.work i wake
  | .invoke i => s.invoke i
  | .callbackReturn i => s.callbackReturn i
  | .freeJob i => s.freeJob i
  | .destroy d => s.destroy d
  | .spuriousWorker i => match s.worker i with
    | .waiting => some (s.setWorker i .woken)
    | _ => none
  | .spuriousProducer p => match (s.producer p).phase with
    | .waiting => some (s.setProducer p .woken)
    | _ => none
  | .spuriousDestroyer d => match s.destroyer d with
    | .waiting => some (s.setDestroyer d .woken)
    | _ => none

/-- What may happen: `malloc` returns an unused address; a signal wakes waiting threads only, and one at least if
there is any. -/
def Label.Valid : Label n P D → Prop
  | .addJob _ (some pjob) => s.pool.heap pjob = none
  | .work _ wake => (∀ d, wake d = true → s.destroyer d = .waiting) ∧
      ∀ d, s.destroyer d = .waiting → ∃ d', wake d' = true
  | _ => True

/-- One step of one thread. -/
def Step (s : State n P D) (label : Label n P D) (s' : State n P D) : Prop :=
  label.Valid s ∧ s.next label = some s'

/-- The states of all runs of a pool with the given bound and numbers of calls. -/
def Reachable (queueMaxNum : ℤ) (quota : P → ℕ) : State n P D → Prop :=
  Transition.Reachable (· = State.new n D queueMaxNum quota) Step

instance Label.decidableValid [Fintype D] : (label : Label n P D) → Decidable (label.Valid s)
  | .addJob _ (some pjob) => inferInstanceAs (Decidable (s.pool.heap pjob = none))
  | .addJob _ none => inferInstanceAs (Decidable True)
  | .work _ wake => inferInstanceAs (Decidable ((∀ d, wake d = true → s.destroyer d = .waiting) ∧
      ∀ d, s.destroyer d = .waiting → ∃ d', wake d' = true))
  | .invoke _ => inferInstanceAs (Decidable True)
  | .callbackReturn _ => inferInstanceAs (Decidable True)
  | .freeJob _ => inferInstanceAs (Decidable True)
  | .destroy _ => inferInstanceAs (Decidable True)
  | .spuriousWorker _ => inferInstanceAs (Decidable True)
  | .spuriousProducer _ => inferInstanceAs (Decidable True)
  | .spuriousDestroyer _ => inferInstanceAs (Decidable True)

/-- Take a step after checking that it is valid. -/
def State.check [Fintype D] (label : Label n P D) : Option (State n P D) :=
  if label.Valid s then s.next label else none

/-- A checked step is a step. -/
theorem State.step_of_check [Fintype D] {label : Label n P D} {s' : State n P D}
    (h : s.check label = some s') : Step s label s' := by
  rw [State.check] at h
  exact Option.ite_none_right_eq_some.mp h

end Steps

end CppProject.ThreadPool
