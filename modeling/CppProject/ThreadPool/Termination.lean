import CppProject.Lib.Ranking
import CppProject.ThreadPool.Deadlock

/-!
# Every run of the pool ends

Apart from spurious wakeups, a run has no more steps than a bound in the number of threads and of calls.
A call weighs more than the job it adds and the workers it may wake, a job more than its execution and the
threads that its removal may wake, and a woken thread goes back to waiting at its own expense. So the pool
cannot run forever, and whatever has happened, its threads can carry on until all have finished.
-/

namespace CppProject.ThreadPool

open Transition

variable {n : ℕ} {P D : Type*} [Fintype P] [Fintype D]

/-- The steps a worker can still take before it has to be woken. -/
def WorkerPhase.rank : WorkerPhase → ℕ
  | .ready => 1
  | .waiting => 0
  | .woken => 1
  | .holding _ => 4
  | .running _ => 3
  | .called _ => 2
  | .exited => 0

/-- Whether a producer looks at the queue before it has to be woken. -/
def Producer.rank (producer : Producer) : ℕ := if producer.phase = .waiting then 0 else 1

/-- The calls a producer has not finished. -/
def Producer.left (producer : Producer) : ℕ := producer.quota - producer.made

/-- The steps of a call of `ThreadPool_Destroy` with `n` workers, and the threads that it wakes. -/
def DestroyPhase.rank (n producers : ℕ) : DestroyPhase → ℕ
  | .start => 2 * n + producers + 12
  | .waiting => 2 * n + producers + 11
  | .woken => 2 * n + producers + 12
  | .broadcastNotEmpty => 2 * n + producers + 10
  | .broadcastNotFull => n + producers + 9
  | .join i => n - i + 8
  | .release rest => rest.length + 2
  | .freeJobs => 1
  | .returned => 0
  | .refused => 0

/-- What a job on the queue weighs. -/
def jobRank (P D : Type*) [Fintype P] [Fintype D] : ℕ := Fintype.card P + Fintype.card D + 4

/-- What a call of `ThreadPool_AddJob` weighs. -/
def callRank (n : ℕ) (P D : Type*) [Fintype P] [Fintype D] : ℕ := n + jobRank P D + 1

/-- The rank of a state. -/
def State.rank (s : State n P D) : ℕ :=
  callRank n P D * ∑ p, (s.producer p).left + jobRank P D * s.pool.mCurQueueJobNum.toNat +
    ∑ i, (s.worker i).rank + ∑ p, (s.producer p).rank + ∑ d, (s.destroyer d).rank n (Fintype.card P)

/-- A woken worker has at most one step more to take. -/
theorem WorkerPhase.rank_wake_le (phase : WorkerPhase) : phase.wake.rank ≤ phase.rank + 1 := by
  cases phase <;> simp [WorkerPhase.wake, WorkerPhase.rank]

/-- A producer adds at most one to the rank beside its calls. -/
theorem Producer.rank_le_one (producer : Producer) : producer.rank ≤ 1 := by
  unfold Producer.rank
  split <;> omega

/-- A signal leaves the calls a producer has still to make. -/
@[simp] theorem Producer.left_wake (producer : Producer) : producer.wake.left = producer.left := by
  unfold Producer.wake
  split <;> rfl

/-- A move within a call leaves the calls still to make. -/
@[simp] theorem Producer.left_moveTo (producer : Producer) (phase : ProducerPhase) :
    (producer.moveTo phase).left = producer.left := rfl

/-- A producer within a call has not made all of them. -/
def Busy (s : State n P D) : Prop :=
  ∀ p, (s.producer p).phase ≠ .idle → (s.producer p).made < (s.producer p).quota

instance : DecidablePred (Label.IsOwn (n := n) (P := P) (D := D))
  | .addJob _ _ => inferInstanceAs (Decidable True)
  | .work _ _ => inferInstanceAs (Decidable True)
  | .invoke _ => inferInstanceAs (Decidable True)
  | .callbackReturn _ => inferInstanceAs (Decidable True)
  | .freeJob _ => inferInstanceAs (Decidable True)
  | .destroy _ => inferInstanceAs (Decidable True)
  | .spuriousWorker _ => inferInstanceAs (Decidable False)
  | .spuriousProducer _ => inferInstanceAs (Decidable False)
  | .spuriousDestroyer _ => inferInstanceAs (Decidable False)

/-! ## The rank after a step -/

namespace State

/-- The rank when one worker moves. -/
theorem rank_setWorker (s : State n P D) (i : Fin n) (phase : WorkerPhase) :
    (s.setWorker i phase).rank + (s.worker i).rank = s.rank + phase.rank := by
  have hsum := sum_update WorkerPhase.rank s.worker i phase
  simp only [State.rank, setWorker_worker, setWorker_pool, setWorker_producer, setWorker_destroyer]
  omega

/-- A broadcast to the workers costs at most one step of each. -/
theorem rank_wakeWorkers_le (s : State n P D) : s.wakeWorkers.rank ≤ s.rank + n := by
  have hsum := sum_le_add_card fun i => (s.worker i).rank_wake_le
  rw [Fintype.card_fin] at hsum
  simp only [State.rank, wakeWorkers_worker, wakeWorkers_pool, wakeWorkers_producer, wakeWorkers_destroyer]
  omega

/-- A broadcast to the producers costs at most one step of each. -/
theorem rank_wakeProducers_le (s : State n P D) : s.wakeProducers.rank ≤ s.rank + Fintype.card P := by
  have hsum := sum_le_add_card (f := fun p => (s.producer p).rank) (g := fun p => (s.producer p).wake.rank)
    fun p => (Producer.rank_le_one _).trans (Nat.le_add_left 1 _)
  simp only [State.rank, wakeProducers_worker, wakeProducers_pool, wakeProducers_producer,
    wakeProducers_destroyer, Producer.left_wake]
  omega

/-- A signal to the callers of `ThreadPool_Destroy` costs at most one step of each. -/
theorem rank_wakeDestroyers_le (s : State n P D) {wake : D → Bool}
    (hwake : ∀ d, wake d = true → s.destroyer d = .waiting) :
    (s.wakeDestroyers wake).rank ≤ s.rank + Fintype.card D := by
  have hone : ∀ d, (if wake d then DestroyPhase.woken else s.destroyer d).rank n (Fintype.card P) ≤
      (s.destroyer d).rank n (Fintype.card P) + 1 := fun d => by
    by_cases hd : wake d = true
    · rw [if_pos hd, hwake d hd]
      exact le_rfl
    · rw [if_neg hd]
      exact Nat.le_succ _
  have hsum := sum_le_add_card hone
  simp only [State.rank, wakeDestroyers_worker, wakeDestroyers_pool, wakeDestroyers_producer,
    wakeDestroyers_destroyer]
  omega

/-- The queue weighs what its jobs do. -/
theorem rank_pool (s : State n P D) (pool : Pool (Ticket P)) :
    { s with pool := pool }.rank + jobRank P D * s.pool.mCurQueueJobNum.toNat =
      s.rank + jobRank P D * pool.mCurQueueJobNum.toNat := by
  simp only [State.rank]
  omega

/-- The rank when one caller of `ThreadPool_Destroy` moves. -/
theorem rank_setDestroyer [DecidableEq D] (s : State n P D) (d : D) (phase : DestroyPhase) :
    (s.setDestroyer d phase).rank + (s.destroyer d).rank n (Fintype.card P) =
      s.rank + phase.rank n (Fintype.card P) := by
  have hsum := sum_update (DestroyPhase.rank n (Fintype.card P)) s.destroyer d phase
  simp only [State.rank, setDestroyer_worker, setDestroyer_pool, setDestroyer_producer, setDestroyer_destroyer]
  omega

/-- The rank when one producer moves. -/
theorem rank_setProducer [DecidableEq P] (s : State n P D) (p : P) (phase : ProducerPhase) :
    (s.setProducer p phase).rank + (s.producer p).rank = s.rank + ((s.producer p).moveTo phase).rank := by
  have hrank := sum_update Producer.rank s.producer p ((s.producer p).moveTo phase)
  have hleft := sum_update Producer.left s.producer p ((s.producer p).moveTo phase)
  rw [Producer.left_moveTo, Nat.add_right_cancel_iff] at hleft
  simp only [State.rank, setProducer_worker, setProducer_pool, setProducer_producer, setProducer_destroyer, hleft]
  omega

/-- A call that returns is one less to make. -/
theorem rank_finishCall [DecidableEq P] (s : State n P D) {p : P}
    (hleft : (s.producer p).made < (s.producer p).quota) (hphase : (s.producer p).phase ≠ .waiting) :
    (s.finishCall p).rank + callRank n P D = s.rank := by
  have hrank := sum_update Producer.rank s.producer p (s.producer p).finishCall
  have hsum := sum_update Producer.left s.producer p (s.producer p).finishCall
  have hone : (s.producer p).finishCall.rank = (s.producer p).rank := by
    rw [Producer.rank, Producer.rank, if_neg hphase]
    rfl
  have hfinish : (s.producer p).finishCall.left + 1 = (s.producer p).left := by
    simp only [Producer.left, Producer.finishCall]
    omega
  have hcalls : callRank n P D * ∑ x, (Function.update s.producer p (s.producer p).finishCall x).left +
      callRank n P D = callRank n P D * ∑ x, (s.producer x).left := by
    rw [← Nat.mul_succ]
    congr 1
    omega
  simp only [State.rank, finishCall_worker, finishCall_pool, finishCall_producer, finishCall_destroyer]
  omega

end State

variable [DecidableEq P] {s s' : State n P D} {jobs jobs' : Jobs P} {label : Label n P D}

omit [Fintype P] [Fintype D] [DecidableEq P] in
/-- A producer that can enter a section does not wait, and has a call left to finish. -/
theorem Busy.of_canAdd (h : Busy s) {p : P} (hp : s.CanAdd p) :
    (s.producer p).phase ≠ .waiting ∧ (s.producer p).made < (s.producer p).quota := by
  rcases hp with hphase | ⟨hphase, hleft⟩
  · exact ⟨by simp [hphase], h p (by simp [hphase])⟩
  · exact ⟨by simp [hphase], hleft⟩

/-- An accepted job weighs less than the call that adds it, whoever is woken. -/
theorem State.rank_accept_lt {p : P} {broadcast : Bool} {pool : Pool (Ticket P)} (hbusy : Busy s) (hp : s.CanAdd p)
    (hnum : pool.mCurQueueJobNum.toNat = s.pool.mCurQueueJobNum.toNat + 1) :
    (s.afterAddJob p (.accept broadcast, pool)).rank < s.rank := by
  obtain ⟨hphase, hleft⟩ := hbusy.of_canAdd hp
  have hpool := s.rank_pool pool
  rw [hnum, Nat.mul_succ] at hpool
  have hcall : callRank n P D = n + jobRank P D + 1 := rfl
  cases broadcast with
  | false =>
    have hfinish := rank_finishCall { s with pool := pool } hleft hphase
    change (finishCall { s with pool := pool } p).rank < s.rank
    omega
  | true =>
    have hwake := rank_wakeWorkers_le { s with pool := pool }
    have hfinish := rank_finishCall (wakeWorkers { s with pool := pool }) hleft hphase
    change (finishCall (wakeWorkers { s with pool := pool }) p).rank < s.rank
    omega

omit [DecidableEq P] in
/-- A job weighs more than its execution and the threads its removal wakes. -/
theorem State.rank_take_lt {i : Fin n} {wake : D → Bool} {q : JobPtr} {signal broadcast : Bool}
    {pool : Pool (Ticket P)} (hi : s.worker i = .ready ∨ s.worker i = .woken)
    (hwake : ∀ d, wake d = true → s.destroyer d = .waiting)
    (hnum : s.pool.mCurQueueJobNum.toNat = pool.mCurQueueJobNum.toNat + 1) :
    (s.afterWork i wake (.take q signal broadcast, pool)).rank < s.rank := by
  have hpool := s.rank_pool pool
  rw [hnum, Nat.mul_succ] at hpool
  have hjob : jobRank P D = Fintype.card P + Fintype.card D + 4 := rfl
  have hrank : (s.worker i).rank = 1 := by rcases hi with hi | hi <;> rw [hi] <;> rfl
  obtain ⟨s₁, hs₁, hworker₁, hle₁⟩ : ∃ s₁ : State n P D,
      s₁ = (if signal then wakeDestroyers { s with pool := pool } wake else { s with pool := pool }) ∧
        s₁.worker i = s.worker i ∧ s₁.rank ≤ rank { s with pool := pool } + Fintype.card D := by
    refine ⟨_, rfl, ?_⟩
    split
    · exact ⟨rfl, rank_wakeDestroyers_le { s with pool := pool } hwake⟩
    · exact ⟨rfl, Nat.le_add_right _ _⟩
  obtain ⟨s₂, hs₂, hworker₂, hle₂⟩ : ∃ s₂ : State n P D, s₂ = (if broadcast then s₁.wakeProducers else s₁) ∧
      s₂.worker i = s₁.worker i ∧ s₂.rank ≤ s₁.rank + Fintype.card P := by
    refine ⟨_, rfl, ?_⟩
    split
    · exact ⟨rfl, s₁.rank_wakeProducers_le⟩
    · exact ⟨rfl, Nat.le_add_right _ _⟩
  have hmoved := s₂.rank_setWorker i (.holding q)
  rw [hworker₂, hworker₁, hrank] at hmoved
  have hholding : (WorkerPhase.holding q).rank = 4 := rfl
  have hafter : (s.afterWork i wake (.take q signal broadcast, pool)).rank = (s₂.setWorker i (.holding q)).rank := by
    rw [hs₂, hs₁]
    rfl
  omega

/-! ## Every own step lowers the rank -/

variable [DecidableEq D]

omit [Fintype P] [Fintype D] in
/-- After a step, too, a producer within a call has not made all of them. -/
theorem Busy.step (h : Busy s) (heffect : Effect s jobs label s' jobs') : Busy s' := by
  have hmoved : ∀ (p : P) (producer : Producer), (producer.phase ≠ .idle → producer.made < producer.quota) →
      ∀ p', (Function.update s.producer p producer p').phase ≠ .idle →
        (Function.update s.producer p producer p').made < (Function.update s.producer p producer p').quota :=
    fun p producer hproducer => (Function.forall_update_iff _ fun _ (producer : Producer) =>
      producer.phase ≠ .idle → producer.made < producer.quota).mpr ⟨hproducer, fun p' _ => h p'⟩
  have hwake : ∀ p, (s.producer p).wake.phase ≠ .idle → (s.producer p).wake.made < (s.producer p).wake.quota := by
    intro p
    unfold Producer.wake
    split
    · next hwaiting => exact fun _ => h p (by simp [hwaiting])
    · exact h p
  cases heffect with
  | addWait hp => exact hmoved _ _ fun _ => (h.of_canAdd hp).2
  | addReject => exact hmoved _ _ fun hidle => absurd rfl hidle
  | addAccept =>
    rw [Busy, State.afterAccept_producer]
    exact hmoved _ _ fun hidle => absurd rfl hidle
  | workTake =>
    intro p
    rw [State.afterTake_producer]
    split
    · exact hwake p
    · exact h p
  | broadcastNotFull => exact hwake
  | spuriousProducer hp => exact hmoved _ _ fun _ => h _ (by simp [hp])
  | _ => exact h

/-- Every own step lowers the rank. -/
theorem Effect.rank_lt (heffect : Effect s jobs label s' jobs') (hqueue : Queue s.pool jobs) (hbusy : Busy s)
    (hown : label.IsOwn) : s'.rank < s.rank := by
  cases heffect with
  | @addWait p pjob hp =>
    have hmoved := s.rank_setProducer p .waiting
    have hone : (s.producer p).rank = 1 := if_neg (hbusy.of_canAdd hp).1
    have hzero : ((s.producer p).moveTo .waiting).rank = 0 := if_pos rfl
    omega
  | @addReject p pjob hp =>
    obtain ⟨hphase, hleft⟩ := hbusy.of_canAdd hp
    have hfinish := s.rank_finishCall hleft hphase
    have hcall : callRank n P D = n + jobRank P D + 1 := rfl
    change (s.finishCall p).rank < s.rank
    omega
  | addAccept hp _ _ _ hqueue' =>
    refine State.rank_accept_lt hbusy hp ?_
    rw [hqueue'.count, hqueue.count, List.length_append]
    rfl
  | @workWait i wake hi =>
    have hmoved := s.rank_setWorker i .waiting
    have hone : (s.worker i).rank = 1 := by rcases hi with hi | hi <;> rw [hi] <;> rfl
    have hzero : WorkerPhase.waiting.rank = 0 := rfl
    omega
  | @workExit i wake hi =>
    have hmoved := s.rank_setWorker i .exited
    have hone : (s.worker i).rank = 1 := by rcases hi with hi | hi <;> rw [hi] <;> rfl
    have hzero : WorkerPhase.exited.rank = 0 := rfl
    omega
  | workTake hi hvalid _ hjobs _ _ hrest =>
    refine State.rank_take_lt hi hvalid.1 ?_
    rw [hrest.count, hqueue.count, hjobs]
    rfl
  | @invoke i q t hi =>
    have hmoved := s.rank_setWorker i (.running q)
    simp only [hi, WorkerPhase.rank] at hmoved
    change (s.setWorker i (.running q)).rank < s.rank
    omega
  | @callbackReturn i q t hi =>
    have hmoved := s.rank_setWorker i (.called q)
    simp only [hi, WorkerPhase.rank] at hmoved
    change (s.setWorker i (.called q)).rank < s.rank
    omega
  | @freeJob i q t hi =>
    have hmoved := s.rank_setWorker i .ready
    simp only [hi, WorkerPhase.rank] at hmoved
    change (s.setWorker i .ready).rank < s.rank
    omega
  | @destroyRefuse d hd =>
    have hmoved := s.rank_setDestroyer d .refused
    rw [hd] at hmoved
    simp only [DestroyPhase.rank] at hmoved
    omega
  | @destroyWait d hd =>
    have hmoved := s.rank_setDestroyer d .waiting
    have hphase : (s.destroyer d).rank n (Fintype.card P) = 2 * n + Fintype.card P + 12 := by
      rcases hd with hd | hd <;> rw [hd] <;> rfl
    simp only [DestroyPhase.rank] at hmoved hphase
    omega
  | @destroyClose d hd =>
    have hmoved := s.rank_setDestroyer d .broadcastNotEmpty
    have hphase : (s.destroyer d).rank n (Fintype.card P) = 2 * n + Fintype.card P + 12 := by
      rcases hd with hd | hd <;> rw [hd] <;> rfl
    have hclose : ({ s with pool.mPoolIsClose := true }.setDestroyer d .broadcastNotEmpty).rank =
      (s.setDestroyer d .broadcastNotEmpty).rank := rfl
    simp only [DestroyPhase.rank] at hmoved hphase
    omega
  | @broadcastNotEmpty d hd =>
    have hwake := s.rank_wakeWorkers_le
    have hmoved := s.wakeWorkers.rank_setDestroyer d .broadcastNotFull
    rw [State.wakeWorkers_destroyer, hd] at hmoved
    simp only [DestroyPhase.rank] at hmoved
    omega
  | @broadcastNotFull d hd =>
    have hwake := s.rank_wakeProducers_le
    have hmoved := s.wakeProducers.rank_setDestroyer d (.join 0)
    rw [State.wakeProducers_destroyer, hd] at hmoved
    simp only [DestroyPhase.rank] at hmoved
    omega
  | @join d i hd =>
    have hmoved := s.rank_setDestroyer d (.join (i + 1))
    rw [hd] at hmoved
    simp only [DestroyPhase.rank] at hmoved
    have hlt := i.isLt
    omega
  | @joined d i hd =>
    have hmoved := s.rank_setDestroyer d (.release resources)
    rw [hd] at hmoved
    have hlength : resources.length = 5 := rfl
    simp only [DestroyPhase.rank, hlength] at hmoved
    omega
  | @release d r rest hd =>
    have hmoved := s.rank_setDestroyer d (.release rest)
    rw [hd] at hmoved
    simp only [DestroyPhase.rank, List.length_cons] at hmoved
    change (s.setDestroyer d (.release rest)).rank < s.rank
    omega
  | @released d hd =>
    have hmoved := s.rank_setDestroyer d .freeJobs
    rw [hd] at hmoved
    simp only [DestroyPhase.rank, List.length_nil] at hmoved
    omega
  | @freed d hd =>
    have hmoved := s.rank_setDestroyer d .returned
    rw [hd] at hmoved
    simp only [DestroyPhase.rank] at hmoved
    omega
  | spuriousWorker => exact hown.elim
  | spuriousProducer => exact hown.elim
  | spuriousDestroyer => exact hown.elim

/-- A spurious wakeup raises the rank by one. -/
theorem Effect.rank_le_succ (heffect : Effect s jobs label s' jobs') (hspurious : ¬ label.IsOwn) :
    s'.rank ≤ s.rank + 1 := by
  cases heffect with
  | @spuriousWorker i hi =>
    have hmoved := s.rank_setWorker i .woken
    have hone : WorkerPhase.woken.rank = 1 := rfl
    omega
  | @spuriousProducer p hp =>
    have hmoved := s.rank_setProducer p .woken
    have hone := Producer.rank_le_one ((s.producer p).moveTo .woken)
    omega
  | @spuriousDestroyer d hd =>
    have hmoved := s.rank_setDestroyer d .woken
    rw [hd] at hmoved
    simp only [DestroyPhase.rank] at hmoved
    omega
  | _ => exact absurd trivial hspurious

/-- The pool is ranked: its own steps are those of its threads, the others the spurious wakeups. -/
theorem ranked : Ranked (Step (n := n) (P := P) (D := D)) Label.IsOwn (fun s => (∃ jobs, Inv s jobs) ∧ Busy s)
    State.rank 1 where
  keeps := by
    rintro s label s' ⟨⟨jobs, hinv⟩, hbusy⟩ hstep
    obtain ⟨jobs', heffect, hinv'⟩ := hinv.step hstep
    exact ⟨⟨jobs', hinv'⟩, hbusy.step heffect⟩
  drops := by
    rintro s label s' ⟨⟨jobs, hinv⟩, hbusy⟩ hstep hown
    obtain ⟨jobs', heffect, -⟩ := hinv.step hstep
    exact heffect.rank_lt hinv.queue hbusy hown
  rises := by
    rintro s label s' ⟨⟨jobs, hinv⟩, -⟩ hstep hspurious
    obtain ⟨jobs', heffect, -⟩ := hinv.step hstep
    exact heffect.rank_le_succ hspurious

/-! ## Runs -/

omit [DecidableEq P] [DecidableEq D] in
/-- The rank of the pool after `Init`. -/
theorem State.rank_new (queueMaxNum : ℤ) (quota : P → ℕ) :
    (State.new n D queueMaxNum quota).rank = callRank n P D * ∑ p, quota p + n + Fintype.card P +
      Fintype.card D * (2 * n + Fintype.card P + 12) := by
  have hworkers : ∑ _i : Fin n, WorkerPhase.ready.rank = n := by simp [WorkerPhase.rank]
  have hproducers : ∑ p : P, (Producer.mk .idle 0 (quota p)).rank = Fintype.card P := by
    simp [Producer.rank]
  have hdestroyers : ∑ _d : D, DestroyPhase.start.rank n (Fintype.card P) =
      Fintype.card D * (2 * n + Fintype.card P + 12) := by
    simp [DestroyPhase.rank]
  have hcalls : ∑ p : P, (Producer.mk .idle 0 (quota p)).left = ∑ p, quota p := rfl
  simp only [State.rank, State.new, hworkers, hproducers, hdestroyers, hcalls, Pool.new]
  simp

omit [Fintype P] [Fintype D] in
/-- In every reachable state a producer within a call has not made all of them. -/
theorem busy_of_reachable {queueMaxNum : ℤ} (hmax : 0 ≤ queueMaxNum) {quota : P → ℕ}
    (h : Reachable queueMaxNum quota s) : (∃ jobs, Inv s jobs) ∧ Busy s := by
  refine Transition.Reachable.invariant (P := fun s => (∃ jobs, Inv s jobs) ∧ Busy s)
    (fun s hs => ⟨⟨[], hs ▸ inv_new hmax quota⟩, hs ▸ fun p hidle => absurd rfl hidle⟩) ?_ h
  rintro s label s' ⟨⟨jobs, hinv⟩, hbusy⟩ hstep
  obtain ⟨jobs', heffect, hinv'⟩ := hinv.step hstep
  exact ⟨⟨jobs', hinv'⟩, hbusy.step heffect⟩

/-- In every run the steps that are not spurious wakeups are at most a fixed number, which grows with the calls to
be made and the threads there are, and one more for each spurious wakeup. -/
theorem ownSteps_le {queueMaxNum : ℤ} (hmax : 0 ≤ queueMaxNum) {quota : P → ℕ} {labels : List (Label n P D)}
    (hrun : Run Step (State.new n D queueMaxNum quota) labels s) :
    labels.countP (fun label => decide label.IsOwn) ≤
      (n + Fintype.card P + Fintype.card D + 5) * ∑ p, quota p + n + Fintype.card P +
        Fintype.card D * (2 * n + Fintype.card P + 12) + labels.countP fun label => decide (¬ label.IsOwn) := by
  have hcount := ranked.countP_le (busy_of_reachable hmax (.init rfl)) hrun
  rw [State.rank_new] at hcount
  have hcall : callRank n P D = n + Fintype.card P + Fintype.card D + 5 := by
    rw [callRank, jobRank]
    omega
  rw [← hcall]
  omega

/-- A run of two producers with one call each, in which a waiting worker wakes spuriously. -/
theorem ownSteps_le_run : ∃ (labels : List (Label 1 (Fin 2) Unit)) (s : State 1 (Fin 2) Unit),
    Run Step (State.new 1 Unit 1 fun _ => 1) labels s ∧ labels.length = 6 ∧
      labels.countP (fun label => decide label.IsOwn) ≤
        (1 + Fintype.card (Fin 2) + Fintype.card Unit + 5) * ∑ _p : Fin 2, 1 + 1 + Fintype.card (Fin 2) +
          Fintype.card Unit * (2 * 1 + Fintype.card (Fin 2) + 12) +
            labels.countP fun label => decide (¬ label.IsOwn) := by
  let labels : List (Label 1 (Fin 2) Unit) :=
    [.work 0 (fun _ => false), .spuriousWorker 0, .work 0 (fun _ => false), .addJob 0 (some 8), .addJob 1 none,
      .destroy ()]
  have hrun : (Transition.replay (fun s label => s.check label) (State.new 1 Unit 1 fun _ => 1) labels).isSome := by
    decide
  obtain ⟨s, hs⟩ := Option.isSome_iff_exists.mp hrun
  have hrun := Run.replay (fun s _ _ => s.step_of_check) hs
  exact ⟨labels, s, hrun, rfl, ownSteps_le (by decide) hrun⟩

/-- From every reachable state of a pool with one call of `ThreadPool_Destroy`, a run of its own steps is no longer
than the rank of the state, if nothing is left to step then all have finished, and there is such a run. -/
theorem threads_finish {s : State n P Unit} {queueMaxNum : ℤ} {quota : P → ℕ} (hn : 1 ≤ n) (hmax : 1 ≤ queueMaxNum)
    (h : Reachable queueMaxNum quota s) :
    (∀ labels s', Run Step s labels s' → (∀ label ∈ labels, label.IsOwn) →
      labels.length ≤ s.rank ∧ (Stuck s' → Done quota s')) ∧
    ∃ labels s', Run Step s labels s' ∧ (∀ label ∈ labels, label.IsOwn) ∧ Done quota s' := by
  have hinv := busy_of_reachable (by omega) h
  have hdone : ∀ labels s', Run Step s labels s' → Stuck s' → Done quota s' := fun labels s' hrun hstuck =>
    (noLostWakeup_noDeadlock hn hmax (hrun.preserves (fun _ _ _ hs hstep => .step hs hstep) h)).2 hstuck
  refine ⟨fun labels s' hrun hown => ⟨?_, hdone labels s' hrun⟩, ?_⟩
  · have hlength := ranked.length_le hinv hrun hown
    omega
  · obtain ⟨labels, s', hrun, hown, hstuck⟩ := ranked.exists_stuck hinv
    exact ⟨labels, s', hrun, hown, hdone labels s' hrun hstuck⟩

/-- A worker, a producer and `ThreadPool_Destroy` in the middle of what they do. -/
theorem threads_finish_waiting : ∃ s : State 1 (Fin 2) Unit, (s.producer 1).phase = .waiting ∧
    s.destroyer () = .waiting ∧
    (∀ labels s', Run Step s labels s' → (∀ label ∈ labels, label.IsOwn) →
      labels.length ≤ s.rank ∧ (Stuck s' → Done (fun _ => 1) s')) ∧
    ∃ labels s', Run Step s labels s' ∧ (∀ label ∈ labels, label.IsOwn) ∧ Done (fun _ => 1) s' := by
  let labels : List (Label 1 (Fin 2) Unit) :=
    [.work 0 (fun _ => false), .addJob 0 (some 8), .addJob 1 none, .destroy ()]
  have hrun : (Transition.replay (fun s label => s.check label) (State.new 1 Unit 1 fun _ => 1) labels).map
      (fun s => ((s.producer 1).phase, s.destroyer ())) = some (.waiting, .waiting) := by decide
  obtain ⟨s, hrun, hs⟩ := Option.map_eq_some_iff.mp hrun
  obtain ⟨hproducer, hdestroyer⟩ := Prod.mk.inj hs
  have hreach : Reachable 1 (fun _ => 1) s :=
    Transition.Reachable.replay (fun s _ _ => s.step_of_check) (.init rfl) hrun
  exact ⟨s, hproducer, hdestroyer, threads_finish le_rfl le_rfl hreach⟩

end CppProject.ThreadPool
