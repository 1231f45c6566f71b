import CppProject.ThreadPool.Effect
import CppProject.ThreadPool.Ledger

/-!
# The invariant of the pool

`Inv` ties the queue, the log and the phases of the threads together: a worker past its critical
section is responsible for one node that no other thread refers to, the pool is closed with an
empty queue only, and `ThreadPool_Destroy` gets past its joins only when all workers have exited.
-/

namespace CppProject.ThreadPool

variable {n : ℕ} {P D : Type*} {s s' : State n P D} {jobs jobs' : Jobs P}

/-- The node a worker is responsible for. -/
def WorkerPhase.pjob? : WorkerPhase → Option JobPtr
  | .holding q => some q
  | .running q => some q
  | .called q => some q
  | _ => none

/-- The node `q` holds the job `t`, which worker `i` has dequeued and nobody has freed. -/
structure Owns (s : State n P D) (i : Fin n) (q : JobPtr) (t : Ticket P) : Prop where
  callback : callbackAt s.pool.heap q = some t
  dequeued : (t, i) ∈ s.log.dequeued
  unfreed : t ∉ s.log.freed

/-- What is known of a worker in each phase. -/
def WorkerOk (s : State n P D) (i : Fin n) : WorkerPhase → Prop
  | .holding q => ∃ t, Owns s i q t ∧ (t, i) ∉ s.log.invoked
  | .running q => ∃ t, Owns s i q t ∧ (t, i) ∈ s.log.invoked ∧ (t, i) ∉ s.log.completed
  | .called q => ∃ t, Owns s i q t ∧ (t, i) ∈ s.log.completed
  | .exited => s.pool.mPoolIsClose = true
  | _ => True

/-- What is known of a caller of `ThreadPool_Destroy` in each phase. -/
def DestroyOk (s : State n P D) : DestroyPhase → Prop
  | .start => True
  | .waiting => True
  | .woken => True
  | .refused => s.pool.mPoolIsClose = true
  | .broadcastNotEmpty => s.pool.mPoolIsClose = true
  | .broadcastNotFull => s.pool.mPoolIsClose = true
  | .join k => s.pool.mPoolIsClose = true ∧ ∀ j : Fin n, j < k → s.worker j = .exited
  | _ => s.pool.mPoolIsClose = true ∧ ∀ j, s.worker j = .exited

/-- The queue, the log and the phases of the threads fit together. -/
structure Inv (s : State n P D) (jobs : Jobs P) : Prop where
  queue : Queue s.pool jobs
  ledger : Ledger s.log (jobs.map Prod.snd)
  made : ∀ t ∈ s.log.enqueued ++ s.log.rejected, t.2 < (s.producer t.1).made
  closed : s.pool.mPoolIsClose = true → jobs = []
  worker : ∀ i, WorkerOk s i (s.worker i)
  owner : ∀ t i, (t, i) ∈ s.log.dequeued → t ∈ s.log.freed ∨
    ∃ q, (s.worker i).pjob? = some q ∧ callbackAt s.pool.heap q = some t
  destroyer : ∀ d, DestroyOk s (s.destroyer d)

/-- A worker responsible for a node owns it. -/
theorem WorkerOk.owns {i : Fin n} {phase : WorkerPhase} (h : WorkerOk s i phase) {q : JobPtr}
    (hq : phase.pjob? = some q) : ∃ t, Owns s i q t := by
  cases phase with
  | holding p =>
    obtain rfl : p = q := Option.some.inj hq
    exact h.imp fun _ h => h.1
  | running p =>
    obtain rfl : p = q := Option.some.inj hq
    exact h.imp fun _ h => h.1
  | called p =>
    obtain rfl : p = q := Option.some.inj hq
    exact h.imp fun _ h => h.1
  | _ => exact absurd hq (by simp [WorkerPhase.pjob?])

/-- A worker is not affected by what happens to the jobs of others. -/
theorem WorkerOk.mono {i : Fin n} {phase : WorkerPhase} (h : WorkerOk s i phase)
    (hheap : ∀ q t, phase.pjob? = some q → Owns s i q t → callbackAt s'.pool.heap q = some t)
    (hdequeued : s.log.dequeued ⊆ s'.log.dequeued)
    (hinvoked : ∀ t, (t, i) ∈ s.log.dequeued → ((t, i) ∈ s'.log.invoked ↔ (t, i) ∈ s.log.invoked))
    (hcompleted : ∀ t, (t, i) ∈ s.log.dequeued → ((t, i) ∈ s'.log.completed ↔ (t, i) ∈ s.log.completed))
    (hfreed : ∀ t, (t, i) ∈ s.log.dequeued → t ∈ s'.log.freed → t ∈ s.log.freed)
    (hclosed : s.pool.mPoolIsClose = true → s'.pool.mPoolIsClose = true) : WorkerOk s' i phase := by
  have howns : ∀ q t, phase.pjob? = some q → Owns s i q t → Owns s' i q t := fun q t hq ht =>
    ⟨hheap q t hq ht, hdequeued ht.dequeued, fun hmem => ht.unfreed (hfreed t ht.dequeued hmem)⟩
  cases phase with
  | holding q =>
    obtain ⟨t, ht, hnew⟩ := h
    exact ⟨t, howns q t rfl ht, mt (hinvoked t ht.dequeued).mp hnew⟩
  | running q =>
    obtain ⟨t, ht, hstarted, hnew⟩ := h
    exact ⟨t, howns q t rfl ht, (hinvoked t ht.dequeued).mpr hstarted, mt (hcompleted t ht.dequeued).mp hnew⟩
  | called q =>
    obtain ⟨t, ht, hdone⟩ := h
    exact ⟨t, howns q t rfl ht, (hcompleted t ht.dequeued).mpr hdone⟩
  | exited => exact hclosed h
  | ready => trivial
  | waiting => trivial
  | woken => trivial

/-- A worker depends on the pool and the log only. -/
theorem WorkerOk.congr {i : Fin n} {phase : WorkerPhase} (h : WorkerOk s i phase)
    (hpool : s'.pool = s.pool) (hlog : s'.log = s.log) : WorkerOk s' i phase :=
  h.mono (fun _ _ _ ht => by rw [hpool]; exact ht.callback) (by rw [hlog]; exact List.Subset.refl _)
    (fun _ _ => by rw [hlog]) (fun _ _ => by rw [hlog]) (fun _ _ => by rw [hlog]; exact id)
    (by rw [hpool]; exact id)

/-- A caller of `ThreadPool_Destroy` is not affected by other threads. -/
theorem DestroyOk.mono {phase : DestroyPhase} (h : DestroyOk s phase)
    (hclosed : s.pool.mPoolIsClose = true → s'.pool.mPoolIsClose = true)
    (hexited : ∀ j, s.worker j = .exited → s'.worker j = .exited) : DestroyOk s' phase := by
  cases phase with
  | start => trivial
  | waiting => trivial
  | woken => trivial
  | refused => exact hclosed h
  | broadcastNotEmpty => exact hclosed h
  | broadcastNotFull => exact hclosed h
  | join k => exact ⟨hclosed h.1, fun j hj => hexited j (h.2 j hj)⟩
  | release rest => exact ⟨hclosed h.1, fun j => hexited j (h.2 j)⟩
  | freeJobs => exact ⟨hclosed h.1, fun j => hexited j (h.2 j)⟩
  | returned => exact ⟨hclosed h.1, fun j => hexited j (h.2 j)⟩

/-- A signal leaves what a worker holds. -/
@[simp] theorem WorkerPhase.wake_pjob? (phase : WorkerPhase) : phase.wake.pjob? = phase.pjob? := by
  cases phase <;> rfl

/-- A signal does not end a worker. -/
@[simp] theorem WorkerPhase.wake_eq_exited {phase : WorkerPhase} :
    phase.wake = .exited ↔ phase = .exited := by
  cases phase <;> simp [WorkerPhase.wake]

/-- A signal leaves what is known of a worker. -/
theorem WorkerOk.wake {i : Fin n} {phase : WorkerPhase} (h : WorkerOk s i phase) :
    WorkerOk s i phase.wake := by
  cases phase <;> exact h

/-- A signal leaves the calls a producer has made. -/
@[simp] theorem Producer.wake_made (producer : Producer) : producer.wake.made = producer.made := by
  unfold Producer.wake
  split <;> rfl

/-- The job behind a pointer, for the log. -/
theorem State.ticketAt_eq {q : JobPtr} {t : Ticket P} (h : callbackAt s.pool.heap q = some t) :
    s.ticketAt q = [t] := by
  rw [State.ticketAt, ← callbackAt, h]
  rfl

namespace Inv

/-- The ticket of the current call has not been used. -/
theorem ticket_fresh (h : Inv s jobs) (p : P) : s.ticket p ∉ s.log.enqueued ++ s.log.rejected :=
  fun hmem => absurd (h.made _ hmem) (lt_irrefl _)

/-- What is known of a worker in a phase. -/
theorem worker_at (h : Inv s jobs) {i : Fin n} {phase : WorkerPhase} (hi : s.worker i = phase) :
    WorkerOk s i phase := hi ▸ h.worker i

/-- What is known of a caller of `ThreadPool_Destroy` in a phase. -/
theorem destroyer_at (h : Inv s jobs) {d : D} {phase : DestroyPhase} (hd : s.destroyer d = phase) :
    DestroyOk s phase := hd ▸ h.destroyer d

section Phases

variable {i : Fin n} {q : JobPtr} {t : Ticket P}

/-- The job of a worker that is about to call it. -/
theorem holding (h : Inv s jobs) (hi : s.worker i = .holding q) (hq : callbackAt s.pool.heap q = some t) :
    Owns s i q t ∧ (t, i) ∉ s.log.invoked := by
  obtain ⟨t', howns, hnew⟩ := h.worker_at hi
  obtain rfl : t' = t := Option.some.inj (howns.callback.symm.trans hq)
  exact ⟨howns, hnew⟩

/-- The job of a worker that is in its callback. -/
theorem running (h : Inv s jobs) (hi : s.worker i = .running q) (hq : callbackAt s.pool.heap q = some t) :
    Owns s i q t ∧ (t, i) ∈ s.log.invoked ∧ (t, i) ∉ s.log.completed := by
  obtain ⟨t', howns, hlog⟩ := h.worker_at hi
  obtain rfl : t' = t := Option.some.inj (howns.callback.symm.trans hq)
  exact ⟨howns, hlog⟩

/-- The job of a worker that is about to free it. -/
theorem called (h : Inv s jobs) (hi : s.worker i = .called q) (hq : callbackAt s.pool.heap q = some t) :
    Owns s i q t ∧ (t, i) ∈ s.log.completed := by
  obtain ⟨t', howns, hdone⟩ := h.worker_at hi
  obtain rfl : t' = t := Option.some.inj (howns.callback.symm.trans hq)
  exact ⟨howns, hdone⟩

end Phases

/-- Two workers do not own the same job. -/
theorem owns_unique (h : Inv s jobs) {i j : Fin n} {q r : JobPtr} {t : Ticket P} (hi : Owns s i q t)
    (hj : Owns s j r t) : i = j := h.ledger.dequeued_unique hi.dequeued hj.dequeued

/-- The node of a worker is not in the queue. -/
theorem owns_not_queued (h : Inv s jobs) {i : Fin n} {q : JobPtr} {t : Ticket P} (hi : Owns s i q t) :
    ∀ e ∈ jobs, e.1 ≠ q := fun e he heq => by
  have hnode := h.queue.nodes e he
  rw [heq, hi.callback, Option.some.injEq] at hnode
  exact h.ledger.not_dequeued (List.mem_map_of_mem he) i (hnode ▸ hi.dequeued)

/-- Moving one worker, where nothing happens to the jobs of the others. -/
theorem worker_moved (h : Inv s jobs) {i : Fin n} {phase : WorkerPhase} (hphase : WorkerOk s' i phase)
    (hothers : ∀ j, j ≠ i → WorkerOk s j (s.worker j) → WorkerOk s' j (s.worker j)) :
    ∀ j, WorkerOk s' j (Function.update s.worker i phase j) :=
  (Function.forall_update_iff _ fun j phase => WorkerOk s' j phase).mpr
    ⟨hphase, fun j hj => hothers j hj (h.worker j)⟩

end Inv

/-! ## The fields after a section -/

section Outcomes

variable {i : Fin n} {wake : D → Bool} {q : JobPtr} {signal broadcast : Bool} {pool : Pool (Ticket P)}

/-- The pool after a job is taken. -/
@[simp] theorem State.afterTake_pool :
    (s.afterWork i wake (.take q signal broadcast, pool)).pool = pool := by
  cases signal <;> cases broadcast <;> rfl

/-- The worker holds the job it has taken, and the others are as before. -/
@[simp] theorem State.afterTake_worker :
    (s.afterWork i wake (.take q signal broadcast, pool)).worker =
      Function.update s.worker i (.holding q) := by
  cases signal <;> cases broadcast <;> rfl

/-- The producers are woken if the queue was full. -/
@[simp] theorem State.afterTake_producer (p : P) :
    (s.afterWork i wake (.take q signal broadcast, pool)).producer p =
      if broadcast then (s.producer p).wake else s.producer p := by
  cases signal <;> cases broadcast <;> rfl

/-- A caller of `ThreadPool_Destroy` may be woken if the queue is empty. -/
@[simp] theorem State.afterTake_destroyer (d : D) :
    (s.afterWork i wake (.take q signal broadcast, pool)).destroyer d =
      if signal ∧ wake d then .woken else s.destroyer d := by
  cases signal <;> cases broadcast <;> simp [State.afterWork]

/-- The job is noted as taken by the worker. -/
@[simp] theorem State.afterTake_log :
    (s.afterWork i wake (.take q signal broadcast, pool)).log =
      { s.log with dequeued := s.log.dequeued ++ (s.ticketAt q).map fun t => (t, i) } := by
  cases signal <;> cases broadcast <;> rfl

variable [DecidableEq P]

/-- The workers are woken if the queue was empty. -/
@[simp] theorem State.afterAccept_worker (s : State n P D) (p : P) (broadcast : Bool)
    (pool : Pool (Ticket P)) (i : Fin n) :
    (s.afterAddJob p (.accept broadcast, pool)).worker i =
      if broadcast then (s.worker i).wake else s.worker i := by
  cases broadcast <;> rfl

/-- The pool after a job is added. -/
@[simp] theorem State.afterAccept_pool (s : State n P D) (p : P) (broadcast : Bool)
    (pool : Pool (Ticket P)) : (s.afterAddJob p (.accept broadcast, pool)).pool = pool := by
  cases broadcast <;> rfl

/-- The producer's call is over, and the others are as before. -/
@[simp] theorem State.afterAccept_producer (s : State n P D) (p : P) (broadcast : Bool)
    (pool : Pool (Ticket P)) : (s.afterAddJob p (.accept broadcast, pool)).producer =
      Function.update s.producer p (s.producer p).finishCall := by
  cases broadcast <;> rfl

/-- An added job wakes no caller of `ThreadPool_Destroy`. -/
@[simp] theorem State.afterAccept_destroyer (s : State n P D) (p : P) (broadcast : Bool)
    (pool : Pool (Ticket P)) :
    (s.afterAddJob p (.accept broadcast, pool)).destroyer = s.destroyer := by
  cases broadcast <;> rfl

/-- The job is noted as added. -/
@[simp] theorem State.afterAccept_log (s : State n P D) (p : P) (broadcast : Bool)
    (pool : Pool (Ticket P)) : (s.afterAddJob p (.accept broadcast, pool)).log =
      { s.log with enqueued := s.log.enqueued ++ [s.ticket p] } := by
  cases broadcast <;> rfl

end Outcomes

/-- `Init` leaves an empty queue. -/
theorem inv_new {queueMaxNum : ℤ} (hmax : 0 ≤ queueMaxNum) (quota : P → ℕ) :
    Inv (State.new n D queueMaxNum quota) [] where
  queue := ⟨rfl, rfl, rfl, by simp, hmax⟩
  ledger := ⟨rfl, List.nodup_nil, List.Subset.refl _, List.nodup_nil, List.Subset.refl _, List.nodup_nil,
    List.Subset.refl _, List.nodup_nil⟩
  made := by simp [State.new]
  closed := fun _ => rfl
  worker := fun _ => trivial
  owner := by simp [State.new]
  destroyer := fun _ => trivial

end CppProject.ThreadPool
