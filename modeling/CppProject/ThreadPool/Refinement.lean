import CppProject.Lib.Simulation
import CppProject.Lib.WorkQueue
import CppProject.ThreadPool.Preservation

/-!
# The pool is a bounded work queue

The linked list, the phases of the workers and the flag of the pool stand for the state of a work queue: the
jobs on the list in their order, the job in the hands of each worker, and whether jobs are still accepted. Under
this reading each section is one operation of the queue, or none. The jobs in the pool are then accounted for:
none is lost, and there are never more of them than places on the queue and workers.
-/

namespace CppProject.ThreadPool

open Transition

variable {n : ℕ} {P D : Type*} {s s' : State n P D} {jobs jobs' : Jobs P}

/-- The job in the hands of a worker, from taking it to freeing it. -/
def State.job? (s : State n P D) (i : Fin n) : Option (Ticket P) :=
  (s.worker i).pjob?.bind (callbackAt s.pool.heap)

/-- The work queue that the pool stands for when its list holds the given jobs. -/
def State.workQueue (s : State n P D) (jobs : Jobs P) : WorkQueue.State (Ticket P) (Fin n) where
  queued := jobs.map Prod.snd
  running := s.job?
  accepted := s.log.enqueued
  started := s.log.dequeued.map Prod.fst
  finished := s.log.freed
  isOpen := !s.pool.mPoolIsClose

namespace Inv

/-- A worker has the job it has taken and not freed. -/
theorem job?_eq_some (h : Inv s jobs) {i : Fin n} {t : Ticket P} :
    s.job? i = some t ↔ (t, i) ∈ s.log.dequeued ∧ t ∉ s.log.freed := by
  constructor
  · intro hjob
    obtain ⟨q, hq, hcallback⟩ := Option.bind_eq_some_iff.mp hjob
    obtain ⟨t', howns⟩ := (h.worker i).owns hq
    obtain rfl : t' = t := Option.some.inj (howns.callback.symm.trans hcallback)
    exact ⟨howns.dequeued, howns.unfreed⟩
  · rintro ⟨hdequeued, hunfreed⟩
    obtain ⟨q, hq, hcallback⟩ := (h.owner t i hdequeued).resolve_left hunfreed
    rw [State.job?, hq]
    exact hcallback

/-- The jobs of the workers when none is taken or freed. -/
theorem job?_congr (h : Inv s jobs) (h' : Inv s' jobs') (hdequeued : s'.log.dequeued = s.log.dequeued)
    (hfreed : s'.log.freed = s.log.freed) : s'.job? = s.job? := by
  funext i
  apply Option.ext
  intro t
  rw [h.job?_eq_some, h'.job?_eq_some, hdequeued, hfreed]

/-- The jobs of the workers when one takes a job. -/
theorem job?_taken (h : Inv s jobs) (h' : Inv s' jobs') {i : Fin n} {t : Ticket P} (hi : s.job? i = none)
    (hdequeued : s'.log.dequeued = s.log.dequeued ++ [(t, i)]) (hfreed : s'.log.freed = s.log.freed)
    (hnew : t ∉ s.log.freed) : s'.job? = Function.update s.job? i (some t) := by
  funext j
  by_cases hj : j = i
  · subst hj
    rw [Function.update_self, h'.job?_eq_some, hdequeued, hfreed]
    exact ⟨by simp, hnew⟩
  · rw [Function.update_of_ne hj]
    apply Option.ext
    intro t'
    rw [h.job?_eq_some, h'.job?_eq_some, hdequeued, hfreed]
    simp [hj]

/-- The jobs of the workers when one frees a job. -/
theorem job?_freed (h : Inv s jobs) (h' : Inv s' jobs') {i : Fin n} {t : Ticket P} (hi : s.job? i = some t)
    (hnone : s'.job? i = none) (hdequeued : s'.log.dequeued = s.log.dequeued)
    (hfreed : s'.log.freed = s.log.freed ++ [t]) : s'.job? = Function.update s.job? i none := by
  funext j
  by_cases hj : j = i
  · subst hj
    rw [Function.update_self, hnone]
  · rw [Function.update_of_ne hj]
    apply Option.ext
    intro t'
    rw [h.job?_eq_some, h'.job?_eq_some, hdequeued, hfreed, List.mem_append, List.mem_singleton, not_or]
    refine and_congr_right fun hmem => and_iff_left ?_
    rintro rfl
    exact hj (h.ledger.dequeued_unique hmem (h.job?_eq_some.mp hi).1)

end Inv

/-- A step that none of this is affected by. -/
theorem Inv.workQueue_congr (h : Inv s jobs) (h' : Inv s' jobs) (henqueued : s'.log.enqueued = s.log.enqueued)
    (hdequeued : s'.log.dequeued = s.log.dequeued) (hfreed : s'.log.freed = s.log.freed)
    (hclosed : s'.pool.mPoolIsClose = s.pool.mPoolIsClose) : s'.workQueue jobs = s.workQueue jobs := by
  simp only [State.workQueue, h.job?_congr h' hdequeued hfreed, henqueued, hdequeued, hfreed, hclosed]

/-- A worker that is not past its section has no job. -/
theorem State.job?_eq_none {i : Fin n} (hi : s.worker i = .ready ∨ s.worker i = .woken) : s.job? i = none := by
  rcases hi with hi | hi <;> rw [State.job?, hi] <;> rfl

variable [DecidableEq P] [DecidableEq D] {label : Label n P D}

/-- The bound of the queue is not changed. -/
theorem Effect.max_eq (heffect : Effect s jobs label s' jobs') : s'.pool.mQueueMaxNum = s.pool.mQueueMaxNum := by
  cases heffect with
  | addAccept _ _ _ hpush =>
    rw [State.afterAccept_pool]
    exact hpush.max
  | workTake _ _ _ _ _ hpop =>
    rw [State.afterTake_pool]
    exact hpop.max
  | _ => rfl

/-- Each step is an operation of the work queue or leaves it alone. -/
theorem Effect.workQueue (heffect : Effect s jobs label s' jobs') (h : Inv s jobs) (h' : Inv s' jobs') :
    s'.workQueue jobs' = s.workQueue jobs ∨
      ∃ event, WorkQueue.Step s.pool.mQueueMaxNum.toNat (s.workQueue jobs) event (s'.workQueue jobs') := by
  cases heffect with
  | @addAccept p q pool' hp hopen hroom hpush hqueue' =>
    right
    refine ⟨.accept (s.ticket p), ?_⟩
    have hafter : (s.afterAddJob p (.accept jobs.isEmpty, pool')).workQueue (jobs ++ [(q, s.ticket p)]) =
        { s.workQueue jobs with
          queued := (s.workQueue jobs).queued ++ [s.ticket p]
          accepted := (s.workQueue jobs).accepted ++ [s.ticket p] } := by
      simp only [State.workQueue, h.job?_congr h' (by simp) (by simp), State.afterAccept_log,
        State.afterAccept_pool, hpush.closed, List.map_append, List.map_cons, List.map_nil]
    rw [hafter]
    refine .accept (by simp [State.workQueue, hopen]) ?_ fun hmem => ?_
    · have hcount := h.queue.count
      rw [State.workQueue, List.length_map]
      omega
    · exact h.ticket_fresh p (List.mem_append_left _ hmem)
  | @workTake i wake q t _ pool' hi hvalid hopen hjobs hcount hpop hrest =>
    right
    refine ⟨.start i, ?_⟩
    have hnode : callbackAt s.pool.heap q = some t := h.queue.nodes (q, t) (by simp [hjobs])
    have hqueued : t ∈ jobs.map Prod.snd := by simp [hjobs]
    have hnew : t ∉ s.log.freed := fun hfreed => by
      obtain ⟨j, -, hdequeued⟩ := h.ledger.freed_dequeued hfreed
      exact h.ledger.not_dequeued hqueued j hdequeued
    have hjob := h.job?_taken h' (State.job?_eq_none hi) (by simp [State.ticketAt_eq hnode]) (by simp) hnew
    have hafter : (s.afterWork i wake (.take q jobs'.isEmpty
          (decide (pool'.mCurQueueJobNum = s.pool.mQueueMaxNum - 1)), pool')).workQueue jobs' =
        { s.workQueue jobs with
          queued := jobs'.map Prod.snd
          running := Function.update (s.workQueue jobs).running i (some t)
          started := (s.workQueue jobs).started ++ [t] } := by
      simp only [State.workQueue, hjob, State.afterTake_log, State.afterTake_pool, hpop.closed,
        State.ticketAt_eq hnode, List.map_append, List.map_cons, List.map_nil]
    rw [hafter]
    exact .start (by simp [State.workQueue, hopen]) (by simp [State.workQueue, hjobs]) (State.job?_eq_none hi)
  | @freeJob i q t hi hcallback =>
    right
    refine ⟨.finish i, ?_⟩
    have hsome : s.job? i = some t := by
      rw [State.job?, hi]
      exact hcallback
    have hnone : State.job? ({ s.setWorker i .ready with
          pool.heap := Function.update s.pool.heap q none
          log.freed := s.log.freed ++ [t] } : State n P D) i = none :=
      State.job?_eq_none (Or.inl (Function.update_self i _ s.worker))
    have hjob := h.job?_freed h' hsome hnone rfl rfl
    simp only [State.workQueue, hjob]
    exact .finish (s := s.workQueue jobs) hsome
  | @destroyClose d hd hempty =>
    right
    refine ⟨.close, ?_⟩
    have hjob := h.job?_congr h' rfl rfl
    simp only [State.workQueue, hjob]
    exact .close (s := s.workQueue jobs) (by simp [State.workQueue, hempty])
  | _ => exact Or.inl (h.workQueue_congr h' rfl rfl rfl rfl)

/-- The pool is simulated by the work queue with its bound. -/
theorem simulation {queueMaxNum : ℤ} (hmax : 0 ≤ queueMaxNum) (quota : P → ℕ) :
    Simulation (· = State.new n D queueMaxNum quota) Step (· = WorkQueue.State.new (Ticket P) (Fin n))
      (WorkQueue.Step queueMaxNum.toNat)
      fun s a => ∃ jobs, Inv s jobs ∧ s.pool.mQueueMaxNum = queueMaxNum ∧ a = s.workQueue jobs where
  init := by
    rintro s rfl
    refine ⟨_, rfl, [], inv_new hmax quota, rfl, ?_⟩
    rfl
  step := by
    rintro s label s' a ⟨jobs, hinv, hbound, rfl⟩ hstep
    obtain ⟨jobs', heffect, hinv'⟩ := hinv.step hstep
    have hbound' : s'.pool.mQueueMaxNum = queueMaxNum := heffect.max_eq.trans hbound
    rcases heffect.workQueue hinv hinv' with hsame | ⟨event, hevent⟩
    · exact Or.inl ⟨jobs', hinv', hbound', hsame.symm⟩
    · exact Or.inr ⟨event, s'.workQueue jobs', hbound ▸ hevent, jobs', hinv', hbound', rfl⟩

/-- Every reachable state of the pool stands for a reachable state of the work queue, with the jobs on the linked list
as the queued ones. -/
theorem refines_workQueue {queueMaxNum : ℤ} (hmax : 0 ≤ queueMaxNum) {quota : P → ℕ}
    (h : Reachable queueMaxNum quota s) :
    ∃ jobs, Queue s.pool jobs ∧ WorkQueue.Reachable queueMaxNum.toNat (s.workQueue jobs) := by
  obtain ⟨_, hreach, jobs, hinv, -, rfl⟩ := (simulation hmax quota).reachable h
  exact ⟨jobs, hinv.queue, hreach⟩

/-- Every accepted job has been freed, is with a worker or is counted by `m_CurQueueJobNum`; so the jobs that the
producers are ahead of the workers are at most as many as there are places and workers. -/
theorem backlog {queueMaxNum : ℤ} (hmax : 0 ≤ queueMaxNum) {quota : P → ℕ} (h : Reachable queueMaxNum quota s) :
    (s.log.enqueued.length : ℤ) =
        s.log.freed.length + (Finset.univ.filter fun i => (s.job? i).isSome).card + s.pool.mCurQueueJobNum ∧
      s.log.enqueued.length ≤ s.log.freed.length + n + queueMaxNum.toNat := by
  obtain ⟨_, hreach, jobs, hinv, -, rfl⟩ := (simulation hmax quota).reachable h
  have hsound := WorkQueue.Reachable.sound hreach
  have hlength := hsound.length_eq
  have hle := hsound.length_le
  rw [Fintype.card_fin] at hle
  refine ⟨?_, hle⟩
  have hqueued : (s.workQueue jobs).queued.length = jobs.length := List.length_map _
  rw [hinv.queue.count, ← hqueued]
  exact_mod_cast hlength

/-- One worker with a job in its hands, one job on the queue, and a producer that waits. -/
theorem refines_workQueue_full : ∃ s : State 1 (Fin 2) Unit, s.worker 0 = .holding 8 ∧
    s.log.enqueued = [(0, 0), (1, 0)] ∧
    ∃ jobs, Queue s.pool jobs ∧ WorkQueue.Reachable (Int.toNat 1) (s.workQueue jobs) := by
  let labels : List (Label 1 (Fin 2) Unit) :=
    [.addJob 0 (some 8), .addJob 1 none, .work 0 (fun _ => false), .addJob 1 (some 16), .addJob 0 none]
  have hrun : (Transition.replay (fun s label => s.check label) (State.new 1 Unit 1 fun _ => 2) labels).map
      (fun s => (s.worker 0, s.log.enqueued)) = some (.holding 8, [(0, 0), (1, 0)]) := by decide
  obtain ⟨s, hrun, hs⟩ := Option.map_eq_some_iff.mp hrun
  obtain ⟨hworker, henqueued⟩ := Prod.mk.inj hs
  have hreach : Reachable 1 (fun _ => 2) s :=
    Transition.Reachable.replay (fun s _ _ => s.step_of_check) (.init rfl) hrun
  exact ⟨s, hworker, henqueued, refines_workQueue (by decide) hreach⟩

/-- As many jobs as there are places and workers. -/
theorem backlog_full : ∃ s : State 1 (Fin 2) Unit, s.log.enqueued.length = 2 ∧ s.log.freed = [] ∧
    (s.log.enqueued.length : ℤ) =
        s.log.freed.length + (Finset.univ.filter fun i => (s.job? i).isSome).card + s.pool.mCurQueueJobNum ∧
      s.log.enqueued.length ≤ s.log.freed.length + 1 + Int.toNat 1 := by
  let labels : List (Label 1 (Fin 2) Unit) :=
    [.addJob 0 (some 8), .addJob 1 none, .work 0 (fun _ => false), .addJob 1 (some 16), .addJob 0 none]
  have hrun : (Transition.replay (fun s label => s.check label) (State.new 1 Unit 1 fun _ => 2) labels).map
      (fun s => (s.log.enqueued.length, s.log.freed)) = some (2, []) := by decide
  obtain ⟨s, hrun, hs⟩ := Option.map_eq_some_iff.mp hrun
  obtain ⟨henqueued, hfreed⟩ := Prod.mk.inj hs
  have hreach : Reachable 1 (fun _ => 2) s :=
    Transition.Reachable.replay (fun s _ _ => s.step_of_check) (.init rfl) hrun
  exact ⟨s, henqueued, hfreed, backlog (by decide) hreach⟩

end CppProject.ThreadPool
