import CppProject.ThreadPool.ExactlyOnce

/-!
# No lost wakeup

A thread that waits on a condition variable, and has not been woken, waits for a condition that
still fails: a worker for a job, a producer for room, the caller of `ThreadPool_Destroy` for an
empty queue. After its two broadcasts nobody waits.
-/

namespace CppProject.ThreadPool

variable {n : ℕ} {P : Type*} [DecidableEq P] {s s' : State n P Unit} {jobs jobs' : Jobs P}
  {label : Label n P Unit}

/-- The broadcast on `m_cond_QueueNotEmpty` has been issued. -/
def DestroyPhase.NotEmptySent : DestroyPhase → Prop
  | .broadcastNotFull => True
  | .join _ => True
  | .release _ => True
  | .freeJobs => True
  | .returned => True
  | _ => False

/-- Both broadcasts have been issued. -/
def DestroyPhase.BothSent : DestroyPhase → Prop
  | .join _ => True
  | .release _ => True
  | .freeJobs => True
  | .returned => True
  | _ => False

/-- The second broadcast comes after the first. -/
theorem DestroyPhase.BothSent.notEmptySent {phase : DestroyPhase} (h : phase.BothSent) :
    phase.NotEmptySent := by
  cases phase <;> trivial

/-- The broadcasts come after the flag. -/
theorem DestroyPhase.NotEmptySent.closing {phase : DestroyPhase} (h : phase.NotEmptySent) :
    phase.Closing := by
  cases phase <;> trivial

omit [DecidableEq P] in
/-- Past closing, the pool is closed. -/
theorem DestroyOk.closed {phase : DestroyPhase} (h : DestroyOk s phase) (hclosing : phase.Closing) :
    s.pool.mPoolIsClose = true := by
  cases phase with
  | start => contradiction
  | waiting => contradiction
  | woken => contradiction
  | refused => contradiction
  | broadcastNotEmpty => exact h
  | broadcastNotFull => exact h
  | _ => exact h.1

/-- Whoever waits has a reason to, and will be woken when it goes away. -/
structure Waits (s : State n P Unit) : Prop where
  worker : ∀ i, s.worker i = .waiting →
    s.pool.mCurQueueJobNum = 0 ∧ ¬ (s.destroyer ()).NotEmptySent
  producer : ∀ p, (s.producer p).phase = .waiting →
    s.pool.mCurQueueJobNum = s.pool.mQueueMaxNum ∧ ¬ (s.destroyer ()).BothSent
  destroyer : s.destroyer () = .waiting → s.pool.mCurQueueJobNum ≠ 0

/-- A woken worker does not wait. -/
@[simp] theorem WorkerPhase.wake_ne_waiting (phase : WorkerPhase) : phase.wake ≠ .waiting := by
  cases phase <;> simp [WorkerPhase.wake]

/-- A woken producer does not wait. -/
@[simp] theorem Producer.wake_phase_ne (producer : Producer) : producer.wake.phase ≠ .waiting := by
  unfold Producer.wake
  split
  · simp [Producer.moveTo]
  · assumption

namespace Waits

omit [DecidableEq P] in
/-- Moving a worker, to waiting only when there is a reason to. -/
theorem worker_moved (h : Waits s) {i : Fin n} {phase : WorkerPhase} (hphase : phase = .waiting →
      s.pool.mCurQueueJobNum = 0 ∧ ¬ (s.destroyer ()).NotEmptySent) :
    ∀ j, Function.update s.worker i phase j = .waiting →
      s.pool.mCurQueueJobNum = 0 ∧ ¬ (s.destroyer ()).NotEmptySent :=
  (Function.forall_update_iff _ fun _ (phase : WorkerPhase) => phase = .waiting → _).mpr
    ⟨hphase, fun j _ => h.worker j⟩

/-- Moving a producer, to waiting only when there is a reason to. -/
theorem producer_moved (h : Waits s) {p : P} {producer : Producer}
    (hphase : producer.phase = .waiting →
      s.pool.mCurQueueJobNum = s.pool.mQueueMaxNum ∧ ¬ (s.destroyer ()).BothSent) :
    ∀ p', (Function.update s.producer p producer p').phase = .waiting →
      s.pool.mCurQueueJobNum = s.pool.mQueueMaxNum ∧ ¬ (s.destroyer ()).BothSent :=
  (Function.forall_update_iff _ fun _ (producer : Producer) => producer.phase = .waiting → _).mpr
    ⟨hphase, fun p' _ => h.producer p'⟩

omit [DecidableEq P] in
/-- Moving the caller between phases with the same broadcasts behind them. -/
theorem destroyer_moved (h : Waits s) {d : Unit} {phase : DestroyPhase}
    (hne : phase = .waiting → s.pool.mCurQueueJobNum ≠ 0)
    (hempty : phase.NotEmptySent → (s.destroyer ()).NotEmptySent)
    (hboth : phase.BothSent → (s.destroyer ()).BothSent) : Waits (s.setDestroyer d phase) := by
  have hself := State.setDestroyer_unit s d phase
  refine ⟨fun i hi => ?_, fun p hp => ?_, fun hd => hne (hself ▸ hd)⟩
  · rw [hself]
    exact ⟨(h.worker i hi).1, mt hempty (h.worker i hi).2⟩
  · rw [hself]
    exact ⟨(h.producer p hp).1, mt hboth (h.producer p hp).2⟩

omit [DecidableEq P] in
/-- Moving the caller after both broadcasts. -/
theorem sent_moved (h : Waits s) {d : Unit} {phase phase' : DestroyPhase} (hd : s.destroyer d = phase)
    (hsent : phase.BothSent) (hne : phase' ≠ .waiting) : Waits (s.setDestroyer d phase') := by
  have hsent : (s.destroyer ()).BothSent := hd ▸ hsent
  exact h.destroyer_moved (fun heq => absurd heq hne) (fun _ => hsent.notEmptySent) fun _ => hsent

/-- An append: into an empty queue the job is announced to all workers; else none was waiting. -/
theorem accepted (h : Waits s) (hinv : Inv s jobs) {p : P} {e : JobPtr × Ticket P} {pool' : Pool (Ticket P)}
    (hroom : s.pool.mCurQueueJobNum < s.pool.mQueueMaxNum) (hqueue : Queue pool' (jobs ++ [e])) :
    Waits (s.afterAddJob p (.accept jobs.isEmpty, pool')) := by
  have hcount : pool'.mCurQueueJobNum = s.pool.mCurQueueJobNum + 1 := by
    rw [hqueue.count, hinv.queue.count]
    simp
  have hnonneg : 0 ≤ s.pool.mCurQueueJobNum := by rw [hinv.queue.count]; omega
  refine ⟨fun i hi => ?_, fun p' hp => ?_, fun hd => ?_⟩
  · exfalso
    rw [State.afterAccept_worker] at hi
    by_cases hjobs : jobs = []
    · simp [hjobs] at hi
    · rw [if_neg (by simpa using hjobs)] at hi
      exact hjobs (hinv.queue.count_eq_zero.mp (h.worker i hi).1)
  · exfalso
    rw [State.afterAccept_producer] at hp
    have hfull := h.producer_moved (fun hp => by simp [Producer.finishCall] at hp) p' hp
    omega
  · rw [State.afterAccept_pool, hcount]
    omega

omit [DecidableEq P] in
/-- A removal: leaving a full queue is announced to all producers, and emptying it is signalled to the caller of
`ThreadPool_Destroy`, which is the only one to be woken. -/
theorem taken (h : Waits s) (hinv : Inv s jobs) {i : Fin n} {wake : Unit → Bool} {q : JobPtr} {rest : Jobs P}
    {pool' : Pool (Ticket P)} (hvalid : (Label.work i wake : Label n P Unit).Valid s) (hjobs : jobs ≠ [])
    (hcount : pool'.mCurQueueJobNum = s.pool.mCurQueueJobNum - 1) (hrest : Queue pool' rest) :
    Waits (s.afterWork i wake (.take q rest.isEmpty
      (decide (pool'.mCurQueueJobNum = s.pool.mQueueMaxNum - 1)), pool')) := by
  have hpos : s.pool.mCurQueueJobNum ≠ 0 := mt hinv.queue.count_eq_zero.mp hjobs
  refine ⟨fun j hj => ?_, fun p hp => ?_, fun hd => ?_⟩
  · exfalso
    rw [State.afterTake_worker] at hj
    exact hpos (h.worker_moved (fun hp => by simp at hp) j hj).1
  · exfalso
    rw [State.afterTake_producer] at hp
    by_cases hfull : pool'.mCurQueueJobNum = s.pool.mQueueMaxNum - 1
    · simp [hfull] at hp
    · rw [if_neg (by simpa using hfull)] at hp
      have := (h.producer p hp).1
      omega
  · rw [State.afterTake_pool]
    intro hzero
    rw [State.afterTake_destroyer] at hd
    have hrestnil : rest = [] := hrest.count_eq_zero.mp hzero
    by_cases hwake : wake () = true
    · simp [hrestnil, hwake] at hd
    · rw [if_neg (by simp [hwake])] at hd
      obtain ⟨d', hd'⟩ := hvalid.2 () hd
      exact hwake hd'

/-- Every step keeps it so. -/
theorem step (h : Waits s) (hinv : Inv s jobs) (heffect : Effect s jobs label s' jobs') : Waits s' := by
  -- While the pool is open no broadcast of `ThreadPool_Destroy` has been issued.
  have hunsent : s.pool.mPoolIsClose = false → ¬ (s.destroyer ()).Closing := fun hopen hclosing =>
    absurd ((hinv.destroyer ()).closed hclosing) (by simp [hopen])
  have hempty := hinv.queue.count_eq_zero
  cases heffect with
  | addWait _ hopen hfull =>
    refine ⟨h.worker, h.producer_moved fun _ => ⟨hfull, fun hsent => ?_⟩, h.destroyer⟩
    exact hunsent hopen hsent.notEmptySent.closing
  | addReject => exact ⟨h.worker, h.producer_moved fun hp => by simp [Producer.finishCall] at hp, h.destroyer⟩
  | addAccept _ _ hroom _ hqueue => exact h.accepted hinv hroom hqueue
  | workWait _ hopen hjobs =>
    refine ⟨h.worker_moved fun _ => ⟨hempty.mpr hjobs, fun hsent => ?_⟩, h.producer, h.destroyer⟩
    exact hunsent hopen hsent.closing
  | workExit => exact ⟨h.worker_moved fun hp => by simp at hp, h.producer, h.destroyer⟩
  | workTake _ hvalid _ hjobs hcount _ hrest => exact h.taken hinv hvalid (hjobs ▸ List.cons_ne_nil _ _) hcount hrest
  | invoke => exact ⟨h.worker_moved fun hp => by simp at hp, h.producer, h.destroyer⟩
  | callbackReturn => exact ⟨h.worker_moved fun hp => by simp at hp, h.producer, h.destroyer⟩
  | freeJob => exact ⟨h.worker_moved fun hp => by simp at hp, h.producer, h.destroyer⟩
  | destroyRefuse => exact h.destroyer_moved (by simp) False.elim False.elim
  | destroyWait _ hjobs => exact h.destroyer_moved (fun _ => mt hempty.mp hjobs) False.elim False.elim
  | destroyClose =>
    have hopened : Waits ({ s with pool.mPoolIsClose := true } : State n P Unit) :=
      ⟨h.worker, h.producer, h.destroyer⟩
    exact hopened.destroyer_moved (by simp) False.elim False.elim
  | @broadcastNotEmpty d hd =>
    have hself := State.setDestroyer_unit s.wakeWorkers d .broadcastNotFull
    refine ⟨fun i hi => by simp at hi, fun p hp => ⟨(h.producer p hp).1, ?_⟩, fun hd' => ?_⟩
    · rw [hself]
      exact id
    · rw [hself] at hd'
      exact absurd hd' (by simp)
  | @broadcastNotFull d hd =>
    have hself := State.setDestroyer_unit s.wakeProducers d (.join 0)
    refine ⟨fun i hi => absurd trivial ?_, fun p hp => by simp at hp, fun hd' => ?_⟩
    · have hsent := (h.worker i hi).2
      rw [show s.destroyer () = .broadcastNotFull from hd] at hsent
      exact hsent
    · rw [hself] at hd'
      exact absurd hd' (by simp)
  | join hd => exact h.sent_moved hd trivial (by simp)
  | joined hd => exact h.sent_moved hd trivial (by simp)
  | @release d r rest hd =>
    have hmoved : Waits (s.setDestroyer d (.release rest)) := h.sent_moved hd trivial (by simp)
    exact ⟨hmoved.worker, hmoved.producer, hmoved.destroyer⟩
  | released hd => exact h.sent_moved hd trivial (by simp)
  | freed hd => exact h.sent_moved hd trivial (by simp)
  | spuriousWorker => exact ⟨h.worker_moved fun hp => by simp at hp, h.producer, h.destroyer⟩
  | spuriousProducer => exact ⟨h.worker, h.producer_moved fun hp => by simp [Producer.moveTo] at hp, h.destroyer⟩
  | spuriousDestroyer => exact h.destroyer_moved (by simp) False.elim False.elim

end Waits

/-- In every reachable state whoever waits has a reason to. -/
theorem Reachable.waits {queueMaxNum : ℤ} (hmax : 0 ≤ queueMaxNum) {quota : P → ℕ}
    (h : Reachable queueMaxNum quota s) : ∃ jobs, Inv s jobs ∧ SoleCaller s ∧ Waits s := by
  refine Transition.Reachable.invariant (P := fun s => ∃ jobs, Inv s jobs ∧ SoleCaller s ∧ Waits s)
    (fun s hs => ?_) (fun s label s' hs hstep => ?_) h
  · subst hs
    exact ⟨[], inv_new hmax quota, soleCaller_new _ _, by simp [State.new], by simp [State.new],
      by simp [State.new]⟩
  · obtain ⟨jobs, hinv, hsole, hwaits⟩ := hs
    obtain ⟨jobs', heffect, hinv'⟩ := hinv.step hstep
    exact ⟨jobs', hinv', hsole.step heffect, hwaits.step hinv heffect⟩

/-- Nobody stays in `pthread_cond_wait` un-woken when the awaited condition holds, or after the
broadcasts of `ThreadPool_Destroy`. -/
structure NoLostWakeup (s : State n P Unit) : Prop where
  worker : 0 < s.pool.mCurQueueJobNum → ∀ i, s.worker i ≠ .waiting
  producer : s.pool.mCurQueueJobNum < s.pool.mQueueMaxNum → ∀ p, (s.producer p).phase ≠ .waiting
  destroyer : s.pool.mCurQueueJobNum = 0 → s.destroyer () ≠ .waiting
  workerClosed : (s.destroyer ()).BothSent → ∀ i, s.worker i ≠ .waiting
  producerClosed : (s.destroyer ()).BothSent → ∀ p, (s.producer p).phase ≠ .waiting

omit [DecidableEq P] in
/-- Then no wakeup is lost. -/
theorem Waits.noLostWakeup (h : Waits s) : NoLostWakeup s where
  worker := fun hpos i hi => hpos.ne' (h.worker i hi).1
  producer := fun hroom p hp => hroom.ne (h.producer p hp).1
  destroyer := fun hzero hd => h.destroyer hd hzero
  workerClosed := fun hsent i hi => (h.worker i hi).2 hsent.notEmptySent
  producerClosed := fun hsent p hp => (h.producer p hp).2 hsent

end CppProject.ThreadPool
