import CppProject.ThreadPool.Queue
import CppProject.ThreadPool.System

/-!
# What a step can do

`Effect` lists all that a step can do to a state whose queue holds the given jobs. Everything
later is proved by cases on it.
-/

namespace CppProject.ThreadPool

variable {n : ℕ} {P D : Type*} [DecidableEq P] [DecidableEq D] {s s' : State n P D}

/-- The jobs of a queue, with their nodes. -/
abbrev Jobs (P : Type*) := List (JobPtr × Ticket P)

/-- Everything a step can do, with the queue before and after it. -/
inductive Effect (s : State n P D) (jobs : Jobs P) : Label n P D → State n P D → Jobs P → Prop
  | addWait {p : P} {pjob : Option JobPtr} : s.CanAdd p → s.pool.mPoolIsClose = false →
      s.pool.mCurQueueJobNum = s.pool.mQueueMaxNum →
      Effect s jobs (.addJob p pjob) (s.setProducer p .waiting) jobs
  | addReject {p : P} {pjob : Option JobPtr} : s.CanAdd p →
      (s.pool.mPoolIsClose = true ∨ pjob = none) →
      Effect s jobs (.addJob p pjob) (s.afterAddJob p (.reject, s.pool)) jobs
  | addAccept {p : P} {q : JobPtr} {pool' : Pool (Ticket P)} : s.CanAdd p →
      s.pool.mPoolIsClose = false → s.pool.mCurQueueJobNum < s.pool.mQueueMaxNum →
      Pushed s.pool pool' q (s.ticket p) → Queue pool' (jobs ++ [(q, s.ticket p)]) →
      Effect s jobs (.addJob p (some q)) (s.afterAddJob p (.accept jobs.isEmpty, pool'))
        (jobs ++ [(q, s.ticket p)])
  | workWait {i : Fin n} {wake : D → Bool} : (s.worker i = .ready ∨ s.worker i = .woken) →
      s.pool.mPoolIsClose = false → jobs = [] → Effect s jobs (.work i wake) (s.setWorker i .waiting) jobs
  | workExit {i : Fin n} {wake : D → Bool} : (s.worker i = .ready ∨ s.worker i = .woken) →
      s.pool.mPoolIsClose = true → Effect s jobs (.work i wake) (s.setWorker i .exited) jobs
  | workTake {i : Fin n} {wake : D → Bool} {q : JobPtr} {t : Ticket P} {rest : Jobs P}
      {pool' : Pool (Ticket P)} : (s.worker i = .ready ∨ s.worker i = .woken) →
      (Label.work i wake : Label n P D).Valid s → s.pool.mPoolIsClose = false → jobs = (q, t) :: rest →
      pool'.mCurQueueJobNum = s.pool.mCurQueueJobNum - 1 → Popped s.pool pool' → Queue pool' rest →
      Effect s jobs (.work i wake) (s.afterWork i wake (.take q rest.isEmpty
        (decide (pool'.mCurQueueJobNum = s.pool.mQueueMaxNum - 1)), pool')) rest
  | invoke {i : Fin n} {q : JobPtr} {t : Ticket P} : s.worker i = .holding q →
      callbackAt s.pool.heap q = some t →
      Effect s jobs (.invoke i)
        { s.setWorker i (.running q) with log.invoked := s.log.invoked ++ [(t, i)] } jobs
  | callbackReturn {i : Fin n} {q : JobPtr} {t : Ticket P} : s.worker i = .running q →
      callbackAt s.pool.heap q = some t →
      Effect s jobs (.callbackReturn i)
        { s.setWorker i (.called q) with log.completed := s.log.completed ++ [(t, i)] } jobs
  | freeJob {i : Fin n} {q : JobPtr} {t : Ticket P} : s.worker i = .called q →
      callbackAt s.pool.heap q = some t →
      Effect s jobs (.freeJob i)
        { s.setWorker i .ready with
          pool.heap := Function.update s.pool.heap q none
          log.freed := s.log.freed ++ [t] } jobs
  | destroyRefuse {d : D} : s.destroyer d = .start → s.pool.mPoolIsClose = true →
      Effect s jobs (.destroy d) (s.setDestroyer d .refused) jobs
  | destroyWait {d : D} : (s.destroyer d = .start ∨ s.destroyer d = .woken) → jobs ≠ [] →
      Effect s jobs (.destroy d) (s.setDestroyer d .waiting) jobs
  | destroyClose {d : D} : (s.destroyer d = .start ∨ s.destroyer d = .woken) → jobs = [] →
      Effect s jobs (.destroy d)
        ({ s with pool.mPoolIsClose := true }.setDestroyer d .broadcastNotEmpty) jobs
  | broadcastNotEmpty {d : D} : s.destroyer d = .broadcastNotEmpty →
      Effect s jobs (.destroy d) (s.wakeWorkers.setDestroyer d .broadcastNotFull) jobs
  | broadcastNotFull {d : D} : s.destroyer d = .broadcastNotFull →
      Effect s jobs (.destroy d) (s.wakeProducers.setDestroyer d (.join 0)) jobs
  | join {d : D} {i : Fin n} : s.destroyer d = .join i → s.worker i = .exited →
      Effect s jobs (.destroy d) (s.setDestroyer d (.join (i + 1))) jobs
  | joined {d : D} {i : ℕ} : s.destroyer d = .join i → n ≤ i →
      Effect s jobs (.destroy d) (s.setDestroyer d (.release resources)) jobs
  | release {d : D} {r : Resource} {rest : List Resource} : s.destroyer d = .release (r :: rest) →
      Effect s jobs (.destroy d)
        { s.setDestroyer d (.release rest) with released := s.released ++ [r] } jobs
  | released {d : D} : s.destroyer d = .release [] →
      Effect s jobs (.destroy d) (s.setDestroyer d .freeJobs) jobs
  | freed {d : D} : s.destroyer d = .freeJobs → Effect s jobs (.destroy d) (s.setDestroyer d .returned) jobs
  | spuriousWorker {i : Fin n} : s.worker i = .waiting →
      Effect s jobs (.spuriousWorker i) (s.setWorker i .woken) jobs
  | spuriousProducer {p : P} : (s.producer p).phase = .waiting →
      Effect s jobs (.spuriousProducer p) (s.setProducer p .woken) jobs
  | spuriousDestroyer {d : D} : s.destroyer d = .waiting →
      Effect s jobs (.spuriousDestroyer d) (s.setDestroyer d .woken) jobs

/-- A section of `ThreadPool_Destroy` before the pool is closed. -/
theorem Effect.destroyLoop {jobs : Jobs P} (hqueue : Queue s.pool jobs) {d : D}
    (hd : s.destroyer d = .start ∨ s.destroyer d = .woken) :
    Effect s jobs (.destroy d) (s.afterDestroySection d (destroyLoop s.pool)) jobs := by
  by_cases hempty : jobs = []
  · rw [ThreadPool.destroyLoop, if_neg (not_not.mpr (hqueue.count_eq_zero.mpr hempty))]
    exact .destroyClose hd hempty
  · rw [ThreadPool.destroyLoop, if_pos (mt hqueue.count_eq_zero.mp hempty)]
    exact .destroyWait hd hempty

/-- A step of `ThreadPool_Destroy`, which finds the queue empty once the pool is closed. -/
theorem Effect.of_destroy {jobs : Jobs P} (hqueue : Queue s.pool jobs) {d : D}
    (hempty : s.destroyer d = .freeJobs → jobs = []) (hnext : s.destroy d = some s') :
    Effect s jobs (.destroy d) s' jobs := by
  rw [State.destroy] at hnext
  cases hd : s.destroyer d with
  | start =>
    simp only [hd, Option.some.injEq] at hnext
    subst hnext
    by_cases hclosed : s.pool.mPoolIsClose = true
    · rw [destroySection, if_pos hclosed]
      exact .destroyRefuse hd hclosed
    · rw [destroySection, if_neg hclosed]
      exact .destroyLoop hqueue (Or.inl hd)
  | woken =>
    simp only [hd, Option.some.injEq] at hnext
    subst hnext
    exact .destroyLoop hqueue (Or.inr hd)
  | broadcastNotEmpty =>
    simp only [hd, Option.some.injEq] at hnext
    exact hnext ▸ .broadcastNotEmpty hd
  | broadcastNotFull =>
    simp only [hd, Option.some.injEq] at hnext
    exact hnext ▸ .broadcastNotFull hd
  | join i =>
    simp only [hd] at hnext
    by_cases hi : i < n
    · rw [dif_pos hi] at hnext
      cases hw : s.worker ⟨i, hi⟩ with
      | exited =>
        simp only [hw, Option.some.injEq] at hnext
        exact hnext ▸ .join (i := ⟨i, hi⟩) hd hw
      | _ => simp [hw] at hnext
    · rw [dif_neg hi, Option.some.injEq] at hnext
      exact hnext ▸ .joined hd (not_lt.mp hi)
  | release rest =>
    cases rest with
    | nil =>
      simp only [hd, Option.some.injEq] at hnext
      exact hnext ▸ .released hd
    | cons r rest =>
      simp only [hd, Option.some.injEq] at hnext
      exact hnext ▸ .release hd
  | freeJobs =>
    have hhead : s.pool.mHead = none := by rw [hqueue.head_eq, hempty hd]; rfl
    simp only [hd, hhead, Option.some.injEq] at hnext
    exact hnext ▸ .freed hd
  | waiting => simp [hd] at hnext
  | returned => simp [hd] at hnext
  | refused => simp [hd] at hnext

/-- A section of `ThreadPool_AddJob`. -/
theorem Effect.of_addJob {jobs : Jobs P} (hqueue : Queue s.pool jobs) {p : P} {pjob : Option JobPtr}
    (hvalid : (Label.addJob p pjob : Label n P D).Valid s) (hnext : s.addJob p pjob = some s') :
    ∃ jobs', Effect s jobs (.addJob p pjob) s' jobs' := by
  rw [State.addJob] at hnext
  by_cases hp : s.CanAdd p
  · rw [if_pos hp] at hnext
    have hfresh : ∀ q, pjob = some q → s.pool.heap q = none := fun q hq => by
      subst hq
      exact hvalid
    rcases hqueue.addJobSection_spec (s.ticket p) pjob hfresh with
      ⟨hrun, hopen, hfull⟩ | ⟨hrun, hcause⟩ | ⟨q, pool', rfl, hrun, hopen, hroom, hpush, hqueue'⟩
    · rw [hrun, Option.map_some, Option.some.injEq] at hnext
      exact ⟨jobs, hnext ▸ .addWait hp hopen hfull⟩
    · rw [hrun, Option.map_some, Option.some.injEq] at hnext
      exact ⟨jobs, hnext ▸ .addReject hp hcause⟩
    · rw [hrun, Option.map_some, Option.some.injEq] at hnext
      subst hnext
      exact ⟨_, .addAccept hp hopen hroom hpush hqueue'⟩
  · rw [if_neg hp] at hnext
    contradiction

/-- A section of a worker. -/
theorem Effect.of_work {jobs : Jobs P} (hqueue : Queue s.pool jobs) {i : Fin n} {wake : D → Bool}
    (hvalid : (Label.work i wake : Label n P D).Valid s) (hnext : s.work i wake = some s') :
    ∃ jobs', Effect s jobs (.work i wake) s' jobs' := by
  obtain ⟨hi, hrun⟩ : (s.worker i = .ready ∨ s.worker i = .woken) ∧
      (workSection s.pool).map (s.afterWork i wake) = some s' := by
    rw [State.work] at hnext
    split at hnext
    · exact ⟨Or.inl (by assumption), hnext⟩
    · exact ⟨Or.inr (by assumption), hnext⟩
    · contradiction
  rcases hqueue.workSection_spec with
    ⟨hsection, hopen, hempty⟩ | ⟨hsection, hclosed⟩ | ⟨hopen, q, t, rest, pool', hjobs, hsection, hcount, hpop, hrest⟩
  · rw [hsection, Option.map_some, Option.some.injEq] at hrun
    exact ⟨jobs, hrun ▸ .workWait hi hopen hempty⟩
  · rw [hsection, Option.map_some, Option.some.injEq] at hrun
    exact ⟨jobs, hrun ▸ .workExit hi hclosed⟩
  · rw [hsection, Option.map_some, Option.some.injEq] at hrun
    exact ⟨rest, hrun ▸ .workTake hi hvalid hopen hjobs hcount hpop hrest⟩

/-- Every step has one of the listed effects. -/
theorem Effect.of_step {jobs : Jobs P} (hqueue : Queue s.pool jobs)
    (hempty : ∀ d, s.destroyer d = .freeJobs → jobs = []) {label : Label n P D}
    (hstep : Step s label s') : ∃ jobs', Effect s jobs label s' jobs' := by
  obtain ⟨hvalid, hnext⟩ := hstep
  cases label with
  | addJob p pjob => exact Effect.of_addJob hqueue hvalid hnext
  | work i wake => exact Effect.of_work hqueue hvalid hnext
  | destroy d => exact ⟨jobs, .of_destroy hqueue (hempty d) hnext⟩
  | invoke i =>
    rw [State.next, State.invoke] at hnext
    split at hnext
    · obtain ⟨job, hjob, rfl⟩ := Option.map_eq_some_iff.mp hnext
      exact ⟨jobs, .invoke (by assumption) (by rw [callbackAt, hjob]; rfl)⟩
    · contradiction
  | callbackReturn i =>
    rw [State.next, State.callbackReturn] at hnext
    split at hnext
    · obtain ⟨job, hjob, rfl⟩ := Option.map_eq_some_iff.mp hnext
      exact ⟨jobs, .callbackReturn (by assumption) (by rw [callbackAt, hjob]; rfl)⟩
    · contradiction
  | freeJob i =>
    rw [State.next, State.freeJob] at hnext
    split at hnext
    · obtain ⟨job, hjob, rfl⟩ := Option.map_eq_some_iff.mp hnext
      exact ⟨jobs, .freeJob (by assumption) (by rw [callbackAt, hjob]; rfl)⟩
    · contradiction
  | spuriousWorker i =>
    rw [State.next] at hnext
    split at hnext
    · exact ⟨jobs, Option.some.inj hnext ▸ .spuriousWorker (by assumption)⟩
    · contradiction
  | spuriousProducer p =>
    rw [State.next] at hnext
    split at hnext
    · exact ⟨jobs, Option.some.inj hnext ▸ .spuriousProducer (by assumption)⟩
    · contradiction
  | spuriousDestroyer d =>
    rw [State.next] at hnext
    split at hnext
    · exact ⟨jobs, Option.some.inj hnext ▸ .spuriousDestroyer (by assumption)⟩
    · contradiction

end CppProject.ThreadPool
