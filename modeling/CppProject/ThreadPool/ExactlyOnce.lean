import CppProject.ThreadPool.Preservation

/-!
# Every accepted job is executed exactly once

In every reachable state the log is consistent; once `ThreadPool_Destroy` has returned all
workers have exited and the queue is empty, so every job that was accepted has been dequeued,
called and freed. With a single caller the pool is closed by that caller only, so its call does
not return before the teardown.
-/

namespace CppProject.ThreadPool

variable {n : ℕ} {P D : Type*} {s s' : State n P D} {jobs jobs' : Jobs P}

/-- Jobs are dequeued in order by one worker each, called at most once, and freed at most once
and after their callback; rejected jobs are never called. -/
structure ExactlyOnce (s : State n P D) : Prop where
  fifo : s.log.dequeued.map Prod.fst <+: s.log.enqueued
  distinct : (s.log.enqueued ++ s.log.rejected).Nodup
  oneWorker : ∀ t i j, (t, i) ∈ s.log.dequeued → (t, j) ∈ s.log.dequeued → i = j
  calledByOwner : s.log.invoked ⊆ s.log.dequeued
  calledOnce : (s.log.invoked.map Prod.fst).Nodup
  freedAfterCall : s.log.freed ⊆ s.log.completed.map Prod.fst
  freedOnce : s.log.freed.Nodup
  rejectedNotCalled : ∀ t ∈ s.log.rejected, t ∉ s.log.invoked.map Prod.fst

/-- Every accepted job has been called, has returned and has been freed, each exactly once. -/
def AllExecuted [DecidableEq P] (s : State n P D) : Prop :=
  ∀ t ∈ s.log.enqueued, (s.log.invoked.map Prod.fst).count t = 1 ∧
    (s.log.completed.map Prod.fst).count t = 1 ∧ s.log.freed.count t = 1

/-- Each job is called at most once, whichever worker calls it. -/
theorem Ledger.invoked_nodup {log : Log n P} {queued : List (Ticket P)} (h : Ledger log queued) :
    (log.invoked.map Prod.fst).Nodup :=
  h.invokedOnce.map_on fun _ he _ he' heq =>
    Prod.ext heq (h.dequeued_unique (h.invokedOf he) (heq ▸ h.invokedOf he'))

/-- No job is completed twice. -/
theorem Ledger.completed_nodup {log : Log n P} {queued : List (Ticket P)} (h : Ledger log queued) :
    (log.completed.map Prod.fst).Nodup :=
  h.completedOnce.map_on fun _ he _ he' heq =>
    Prod.ext heq (h.dequeued_unique (h.invokedOf (h.completedOf he))
      (heq ▸ h.invokedOf (h.completedOf he')))

/-- The books say that every job is executed once. -/
theorem Inv.exactlyOnce (h : Inv s jobs) : ExactlyOnce s where
  fifo := by rw [h.ledger.fifo]; exact List.prefix_append _ _
  distinct := h.ledger.issued
  oneWorker := fun _ _ _ => h.ledger.dequeued_unique
  calledByOwner := h.ledger.invokedOf
  calledOnce := h.ledger.invoked_nodup
  freedAfterCall := h.ledger.freedOf
  freedOnce := h.ledger.freedOnce
  rejectedNotCalled := fun t ht hmem => by
    obtain ⟨⟨t', i⟩, hinvoked, rfl⟩ := List.mem_map.mp hmem
    exact h.ledger.not_invoked ht i hinvoked

/-- When all workers have exited from a closed pool, all accepted jobs are done. -/
theorem Inv.allExecuted [DecidableEq P] (h : Inv s jobs) (hclosed : s.pool.mPoolIsClose = true)
    (hexited : ∀ i, s.worker i = .exited) : AllExecuted s := by
  intro t ht
  obtain rfl := h.closed hclosed
  rw [h.ledger.fifo, List.map_nil, List.append_nil] at ht
  obtain ⟨⟨t', i⟩, hdequeued, rfl⟩ := List.mem_map.mp ht
  have hfreed : t' ∈ s.log.freed := (h.owner t' i hdequeued).resolve_right fun ⟨q, hq, _⟩ => by
    rw [hexited i] at hq
    exact absurd hq (by simp [WorkerPhase.pjob?])
  obtain ⟨j, hcompleted, -⟩ := h.ledger.freed_dequeued hfreed
  have hinvoked := h.ledger.completedOf hcompleted
  obtain rfl : j = i := h.ledger.dequeued_unique (h.ledger.invokedOf hinvoked) hdequeued
  exact ⟨List.count_eq_one_of_mem h.ledger.invoked_nodup (List.mem_map_of_mem hinvoked),
    List.count_eq_one_of_mem h.ledger.completed_nodup (List.mem_map_of_mem hcompleted),
    List.count_eq_one_of_mem h.ledger.freedOnce hfreed⟩

/-! ## A single call of `ThreadPool_Destroy` -/

/-- The phases from closing the pool to the return. -/
def DestroyPhase.Closing : DestroyPhase → Prop
  | .start => False
  | .waiting => False
  | .woken => False
  | .refused => False
  | _ => True

/-- The call has returned. -/
def DestroyPhase.Finished (phase : DestroyPhase) : Prop := phase = .returned ∨ phase = .refused

/-- The pool is closed by the single caller itself. -/
structure SoleCaller (s : State n P Unit) : Prop where
  closing : s.pool.mPoolIsClose = true → (s.destroyer ()).Closing
  notRefused : s.destroyer () ≠ .refused

section SingleCaller

variable [DecidableEq P] {s s' : State n P Unit} {label : Label n P Unit}

omit [DecidableEq P] in
/-- The one call is where it is put. -/
theorem State.setDestroyer_unit (s : State n P Unit) (d : Unit) (phase : DestroyPhase) :
    (s.setDestroyer d phase).destroyer () = phase := by
  cases d
  simp

omit [DecidableEq P] in
/-- After `Init` the one call has not begun. -/
theorem soleCaller_new (queueMaxNum : ℤ) (quota : P → ℕ) :
    SoleCaller (State.new n Unit queueMaxNum quota) :=
  ⟨fun hclosed => absurd hclosed (by simp [State.new, Pool.new]), by simp [State.new]⟩

/-- The single caller closes the pool by itself, and once. -/
theorem SoleCaller.step (h : SoleCaller s) (heffect : Effect s jobs label s' jobs') : SoleCaller s' := by
  have hopen : ∀ {phase : DestroyPhase}, ¬ phase.Closing → s.destroyer () = phase →
      s.pool.mPoolIsClose ≠ true := fun hphase hd hclosed => hphase (hd ▸ h.closing hclosed)
  have hmoved : ∀ {phase : DestroyPhase}, s'.destroyer () = phase →
      (s'.pool.mPoolIsClose = true → phase.Closing) → phase ≠ .refused → SoleCaller s' :=
    fun hd hclosing hne => ⟨by rw [hd]; exact hclosing, by rw [hd]; exact hne⟩
  cases heffect with
  | addAccept _ hopen' _ hpush =>
    refine ⟨fun hclosed => ?_, by simpa using h.notRefused⟩
    rw [State.afterAccept_pool, hpush.closed, hopen'] at hclosed
    exact absurd hclosed (by simp)
  | workTake _ _ hopen' _ _ hpop =>
    refine ⟨fun hclosed => ?_, ?_⟩
    · rw [State.afterTake_pool, hpop.closed, hopen'] at hclosed
      exact absurd hclosed (by simp)
    · rw [State.afterTake_destroyer]
      split
      · simp
      · exact h.notRefused
  | destroyRefuse hd hclosed => exact absurd hclosed (hopen id hd)
  | destroyWait hd =>
    refine hmoved (State.setDestroyer_unit _ _ _) (fun hclosed => absurd hclosed ?_) (by simp)
    exact hd.elim (hopen id) (hopen id)
  | destroyClose => exact hmoved (State.setDestroyer_unit _ _ _) (fun _ => trivial) (by simp)
  | broadcastNotEmpty => exact hmoved (State.setDestroyer_unit _ _ _) (fun _ => trivial) (by simp)
  | broadcastNotFull => exact hmoved (State.setDestroyer_unit _ _ _) (fun _ => trivial) (by simp)
  | join => exact hmoved (State.setDestroyer_unit _ _ _) (fun _ => trivial) (by simp)
  | joined => exact hmoved (State.setDestroyer_unit _ _ _) (fun _ => trivial) (by simp)
  | @release d r rest =>
    exact hmoved (State.setDestroyer_unit s d (.release rest)) (fun _ => trivial) (by simp)
  | released => exact hmoved (State.setDestroyer_unit _ _ _) (fun _ => trivial) (by simp)
  | freed => exact hmoved (State.setDestroyer_unit _ _ _) (fun _ => trivial) (by simp)
  | spuriousDestroyer hd =>
    exact hmoved (State.setDestroyer_unit _ _ _) (fun hclosed => absurd hclosed (hopen id hd)) (by simp)
  | _ => exact ⟨h.closing, h.notRefused⟩

/-- With a single caller the invariant holds in every reachable state. -/
theorem Reachable.inv_soleCaller {queueMaxNum : ℤ} (hmax : 0 ≤ queueMaxNum) {quota : P → ℕ}
    (h : Reachable queueMaxNum quota s) : ∃ jobs, Inv s jobs ∧ SoleCaller s := by
  refine Transition.Reachable.invariant (P := fun s => ∃ jobs, Inv s jobs ∧ SoleCaller s)
    (fun s hs => ?_) (fun s label s' hs hstep => ?_) h
  · subst hs
    exact ⟨[], inv_new hmax quota, soleCaller_new _ _⟩
  · obtain ⟨jobs, hinv, hsole⟩ := hs
    obtain ⟨jobs', heffect, hinv'⟩ := hinv.step hstep
    exact ⟨jobs', hinv', hsole.step heffect⟩

/-- In every reachable state of a pool with a single call of `ThreadPool_Destroy`, jobs have been
executed at most once and in order; once that call has returned, all accepted ones have. -/
theorem jobs_executed_exactlyOnce {queueMaxNum : ℤ} (hmax : 1 ≤ queueMaxNum) {quota : P → ℕ}
    (h : Reachable queueMaxNum quota s) :
    ExactlyOnce s ∧ ((s.destroyer ()).Finished → AllExecuted s) := by
  obtain ⟨jobs, hinv, hsole⟩ := h.inv_soleCaller (by omega)
  refine ⟨hinv.exactlyOnce, fun hfinished => ?_⟩
  have hreturned := hfinished.resolve_right hsole.notRefused
  obtain ⟨hclosed, hexited⟩ := hinv.destroyer_at hreturned
  exact hinv.allExecuted hclosed hexited

end SingleCaller

/-- A complete run with one worker, two producers and one place in the queue: the second producer
waits for the first job to be taken, and the pool is destroyed when both are done. -/
theorem jobs_executed_exactlyOnce_run : ∃ s : State 1 (Fin 2) Unit,
    s.log.enqueued = [(0, 0), (1, 0)] ∧ (s.destroyer ()).Finished ∧
      (ExactlyOnce s ∧ ((s.destroyer ()).Finished → AllExecuted s)) := by
  let labels : List (Label 1 (Fin 2) Unit) := [.addJob 0 (some 8), .addJob 1 none,
    .work 0 (fun _ => false), .invoke 0, .addJob 1 (some 16), .destroy (), .callbackReturn 0,
    .freeJob 0, .work 0 (fun _ => true), .destroy (), .invoke 0, .callbackReturn 0, .destroy (),
    .destroy (), .freeJob 0, .work 0 (fun _ => false), .destroy (), .destroy (), .destroy (),
    .destroy (), .destroy (), .destroy (), .destroy (), .destroy (), .destroy ()]
  have hrun : (Transition.replay (fun s label => s.check label) (State.new 1 Unit 1 fun _ => 1) labels).map
      (fun s => (s.log.enqueued, s.destroyer ())) = some ([(0, 0), (1, 0)], .returned) := by decide
  obtain ⟨s, hrun, hs⟩ := Option.map_eq_some_iff.mp hrun
  obtain ⟨henqueued, hreturned⟩ := Prod.mk.inj hs
  have hreach : Reachable 1 (fun _ => 1) s :=
    Transition.Reachable.replay (fun s _ _ => s.step_of_check) (.init rfl) hrun
  exact ⟨s, henqueued, Or.inl hreturned, jobs_executed_exactlyOnce le_rfl hreach⟩

end CppProject.ThreadPool
