import CppProject.ThreadPool.Wakeup

/-!
# Several calls of `ThreadPool_Destroy`

The teardown after the closing flag is set depends on the flag, the counter, the released resources
and the phases of the calls only, so what a step does to these is said without the queue. A call that
finds the pool closed returns; but one that is in `pthread_cond_wait`, or on its way out of it, when
another call closes the pool does not look at the flag again, and tears the pool down once more.
-/

namespace CppProject.ThreadPool

variable {n : ℕ} {P D : Type*} {s s' : State n P D}

/-- What a call has still to release. -/
def DestroyPhase.pending : DestroyPhase → List Resource
  | .release rest => rest
  | .freeJobs => []
  | .returned => []
  | _ => resources

/-- The call is in `pthread_cond_wait`, or on its way out of it. -/
def DestroyPhase.InWait (phase : DestroyPhase) : Prop := phase = .waiting ∨ phase = .woken

instance DestroyPhase.decidableInWait (phase : DestroyPhase) : Decidable phase.InWait :=
  inferInstanceAs (Decidable (_ ∨ _))

/-- A call that waits does not tear down yet. -/
theorem DestroyPhase.InWait.not_closing {phase : DestroyPhase} (h : phase.InWait) : ¬ phase.Closing := by
  rcases h with rfl | rfl <;> exact id

/-- The next section of the call sets the closing flag. -/
def State.Closes (s : State n P D) (d : D) : Prop :=
  s.pool.mCurQueueJobNum = 0 ∧
    (s.destroyer d = .start ∧ s.pool.mPoolIsClose = false ∨ s.destroyer d = .woken)

instance State.decidableCloses (s : State n P D) (d : D) : Decidable (s.Closes d) :=
  inferInstanceAs (Decidable (_ ∧ _))

/-- What a step of another thread does to the calls: a signal may wake them. -/
structure Outside (s s' : State n P D) : Prop where
  closed : s'.pool.mPoolIsClose = s.pool.mPoolIsClose
  count : s.pool.mPoolIsClose = true → s'.pool.mCurQueueJobNum = s.pool.mCurQueueJobNum
  released : s'.released = s.released
  destroyer : ∀ d, s'.destroyer d = s.destroyer d ∨ s.destroyer d = .waiting ∧ s'.destroyer d = .woken

/-- A step that leaves pool, resources and calls. -/
theorem Outside.of_eq (hpool : s'.pool = s.pool) (hreleased : s'.released = s.released)
    (hdestroyer : s'.destroyer = s.destroyer) : Outside s s' :=
  ⟨by rw [hpool], fun _ => by rw [hpool], hreleased, fun d => Or.inl (by rw [hdestroyer])⟩

/-- A wakeup leaves a call in its wait, and no other step than its own begins or ends one. -/
theorem Outside.inWait_iff (h : Outside s s') (d : D) : (s'.destroyer d).InWait ↔ (s.destroyer d).InWait := by
  rcases h.destroyer d with heq | ⟨hd, hd'⟩
  · rw [heq]
  · exact iff_of_true (Or.inr hd') (Or.inl hd)

/-- A call in the teardown is moved by its own steps only. -/
theorem Outside.closing_eq (h : Outside s s') {d : D} (hd : (s.destroyer d).Closing ∨ (s'.destroyer d).Closing) :
    s'.destroyer d = s.destroyer d := by
  rcases h.destroyer d with heq | ⟨hwaiting, hwoken⟩
  · exact heq
  · rw [hwaiting, hwoken] at hd
    exact (hd.elim id id).elim

variable [DecidableEq D]

/-- What a step of a call does. -/
inductive Teardown (s : State n P D) (d : D) : State n P D → Prop
  | refuse : s.destroyer d = .start → s.pool.mPoolIsClose = true → Teardown s d (s.setDestroyer d .refused)
  | wait : (s.destroyer d = .start ∧ s.pool.mPoolIsClose = false ∨ s.destroyer d = .woken) →
      s.pool.mCurQueueJobNum ≠ 0 → Teardown s d (s.setDestroyer d .waiting)
  | close : s.Closes d →
      Teardown s d ({ s with pool.mPoolIsClose := true }.setDestroyer d .broadcastNotEmpty)
  | advance (phase : DestroyPhase) {s' : State n P D} : (s.destroyer d).Closing → phase.Closing →
      (phase.BothSent → (s.destroyer d).BothSent) → phase.pending = (s.destroyer d).pending →
      s'.pool.mPoolIsClose = s.pool.mPoolIsClose →
      s'.pool.mCurQueueJobNum = s.pool.mCurQueueJobNum → s'.released = s.released →
      s'.producer = s.producer → s'.destroyer = Function.update s.destroyer d phase → Teardown s d s'
  | broadcastNotFull : s.destroyer d = .broadcastNotFull →
      Teardown s d (s.wakeProducers.setDestroyer d (.join 0))
  | release {r : Resource} {rest : List Resource} : s.destroyer d = .release (r :: rest) →
      Teardown s d { s.setDestroyer d (.release rest) with released := s.released ++ [r] }

/-- A step of a call within the teardown that only moves the call. -/
theorem Teardown.moved {d : D} {phase phase' : DestroyPhase} (hd : s.destroyer d = phase)
    (hphase : phase.Closing) (hphase' : phase'.Closing) (hsent : phase'.BothSent → phase.BothSent)
    (hpending : phase'.pending = phase.pending) : Teardown s d (s.setDestroyer d phase') :=
  .advance _ (hd ▸ hphase) hphase' (hd ▸ hsent) (by rw [hpending, hd]) rfl rfl rfl rfl rfl

/-- A section of `ThreadPool_Destroy` that does not find the pool closed. -/
theorem Teardown.of_destroyLoop {d : D}
    (hd : s.destroyer d = .start ∧ s.pool.mPoolIsClose = false ∨ s.destroyer d = .woken) :
    Teardown s d (s.afterDestroySection d (destroyLoop s.pool)) := by
  unfold destroyLoop
  split
  · next hcount => exact .wait hd hcount
  · next hcount => exact .close ⟨not_not.mp hcount, hd⟩

/-- Every step of a call has one of the listed effects. -/
theorem Teardown.of_destroy {d : D} (hnext : s.destroy d = some s') : Teardown s d s' := by
  rw [State.destroy] at hnext
  cases hd : s.destroyer d with
  | start =>
    simp only [hd, Option.some.injEq] at hnext
    subst hnext
    unfold destroySection
    split
    · next hclosed => exact .refuse hd hclosed
    · next hclosed => exact .of_destroyLoop (Or.inl ⟨hd, Bool.eq_false_iff.mpr hclosed⟩)
  | woken =>
    simp only [hd, Option.some.injEq] at hnext
    exact hnext ▸ .of_destroyLoop (Or.inr hd)
  | broadcastNotEmpty =>
    simp only [hd, Option.some.injEq] at hnext
    subst hnext
    exact .advance .broadcastNotFull (hd ▸ trivial) trivial False.elim (by rw [hd]; rfl)
      rfl rfl rfl rfl rfl
  | broadcastNotFull =>
    simp only [hd, Option.some.injEq] at hnext
    exact hnext ▸ .broadcastNotFull hd
  | join i =>
    simp only [hd] at hnext
    split at hnext
    · split at hnext
      · exact Option.some.inj hnext ▸ .moved hd trivial trivial id rfl
      · contradiction
    · exact Option.some.inj hnext ▸ .moved hd trivial trivial id rfl
  | release rest =>
    cases rest with
    | nil =>
      simp only [hd, Option.some.injEq] at hnext
      exact hnext ▸ .moved hd trivial trivial id rfl
    | cons r rest =>
      simp only [hd, Option.some.injEq] at hnext
      exact hnext ▸ .release hd
  | freeJobs =>
    simp only [hd] at hnext
    split at hnext
    · exact Option.some.inj hnext ▸ .moved hd trivial trivial id rfl
    · obtain ⟨pool, hpool, rfl⟩ := Option.map_eq_some_iff.mp hnext
      obtain ⟨job, -, rfl⟩ := Option.map_eq_some_iff.mp hpool
      exact .advance .freeJobs (hd ▸ trivial) trivial (fun _ => hd ▸ trivial) (by rw [hd])
        rfl rfl rfl rfl (by simp [← hd])
  | waiting => simp [hd] at hnext
  | returned => simp [hd] at hnext
  | refused => simp [hd] at hnext

/-! ## Steps of the other threads -/

omit [DecidableEq D] in
/-- A section of `ThreadPool_AddJob` leaves the flag alone, and a closed pool too. -/
theorem addJobSection_closed {T : Type*} {pool pool' : Pool T} {callback : T} {pjob : Option JobPtr}
    {outcome : AddJobOutcome} (h : addJobSection pool callback pjob = some (outcome, pool')) :
    pool'.mPoolIsClose = pool.mPoolIsClose ∧
      (pool.mPoolIsClose = true → outcome = .reject ∧ pool' = pool) := by
  by_cases hclosed : pool.mPoolIsClose = true
  · have hreject : addJobSection pool callback pjob = some (.reject, pool) := by
      simp [addJobSection, hclosed]
    rw [hreject, Option.some.injEq, Prod.mk.injEq] at h
    exact ⟨by rw [h.2], fun _ => ⟨h.1.symm, h.2.symm⟩⟩
  · refine ⟨?_, fun hclosed' => absurd hclosed' hclosed⟩
    unfold addJobSection at h
    rw [if_neg hclosed] at h
    split at h
    · rw [(Prod.mk.inj (Option.some.inj h)).2]
    · split at h
      · rw [(Prod.mk.inj (Option.some.inj h)).2]
      · dsimp only at h
        split at h
        · rw [← (Prod.mk.inj (Option.some.inj h)).2]
        · obtain ⟨tail, -, hjob⟩ := Option.bind_eq_some_iff.mp h
          obtain ⟨job, -, hpool⟩ := Option.map_eq_some_iff.mp hjob
          rw [← (Prod.mk.inj hpool).2]

omit [DecidableEq D] in
/-- A section of a worker leaves the flag alone, and a closed pool too. -/
theorem workSection_closed {T : Type*} {pool pool' : Pool T} {outcome : WorkOutcome}
    (h : workSection pool = some (outcome, pool')) :
    pool'.mPoolIsClose = pool.mPoolIsClose ∧
      (pool.mPoolIsClose = true → outcome = .exit ∧ pool' = pool) := by
  by_cases hclosed : pool.mPoolIsClose = true
  · have hexit : workSection pool = some (.exit, pool) := by simp [workSection, hclosed]
    rw [hexit, Option.some.injEq, Prod.mk.injEq] at h
    exact ⟨by rw [h.2], fun _ => ⟨h.1.symm, h.2.symm⟩⟩
  · refine ⟨?_, fun hclosed' => absurd hclosed' hclosed⟩
    rw [workSection, if_neg hclosed] at h
    split at h
    · rw [(Prod.mk.inj (Option.some.inj h)).2]
    · obtain ⟨pjob, -, hlinks⟩ := Option.bind_eq_some_iff.mp h
      obtain ⟨links, -, hpool⟩ := Option.map_eq_some_iff.mp hlinks
      rw [← (Prod.mk.inj hpool).2]

variable [DecidableEq P]

omit [DecidableEq D] in
/-- A section of `ThreadPool_AddJob`. -/
theorem Outside.of_addJob {p : P} {pjob : Option JobPtr} (hnext : s.addJob p pjob = some s') : Outside s s' := by
  rw [State.addJob] at hnext
  obtain ⟨-, hnext⟩ := Option.ite_none_right_eq_some.mp hnext
  obtain ⟨⟨outcome, pool⟩, hsection, rfl⟩ := Option.map_eq_some_iff.mp hnext
  obtain ⟨hclosed, hsame⟩ := addJobSection_closed hsection
  cases outcome with
  | wait => exact ⟨hclosed, fun h => by rw [← (hsame h).2]; rfl, rfl, fun d => Or.inl rfl⟩
  | reject => exact ⟨hclosed, fun h => by rw [← (hsame h).2]; rfl, rfl, fun d => Or.inl rfl⟩
  | accept broadcast =>
    refine ⟨by simpa using hclosed, fun h => absurd (hsame h).1 (by simp), ?_, fun d => Or.inl (by simp)⟩
    cases broadcast <;> rfl

omit [DecidableEq D] [DecidableEq P] in
/-- A section of a worker, whose signal wakes calls that wait. -/
theorem Outside.of_work {i : Fin n} {wake : D → Bool} (hwake : ∀ d, wake d = true → s.destroyer d = .waiting)
    (hnext : s.work i wake = some s') : Outside s s' := by
  have hrun : (workSection s.pool).map (s.afterWork i wake) = some s' := by
    rw [State.work] at hnext
    split at hnext
    · exact hnext
    · exact hnext
    · contradiction
  obtain ⟨⟨outcome, pool⟩, hsection, rfl⟩ := Option.map_eq_some_iff.mp hrun
  obtain ⟨hclosed, hsame⟩ := workSection_closed hsection
  cases outcome with
  | wait => exact ⟨hclosed, fun h => by rw [← (hsame h).2]; rfl, rfl, fun d => Or.inl rfl⟩
  | exit => exact ⟨hclosed, fun h => by rw [← (hsame h).2]; rfl, rfl, fun d => Or.inl rfl⟩
  | take q signal broadcast =>
    refine ⟨by simpa using hclosed, fun h => absurd (hsame h).1 (by simp), ?_, fun d => ?_⟩
    · cases signal <;> cases broadcast <;> rfl
    · rw [State.afterTake_destroyer]
      split
      · next h => exact Or.inr ⟨hwake d h.2, rfl⟩
      · exact Or.inl rfl

/-- A step is one of a call, or leaves the calls as they are but for wakeups. -/
theorem Step.teardown_cases {label : Label n P D} (hstep : Step s label s') :
    (∃ d, label = .destroy d ∧ Teardown s d s') ∨ ((∀ d, label ≠ .destroy d) ∧ Outside s s') := by
  obtain ⟨hvalid, hnext⟩ := hstep
  cases label with
  | destroy d => exact Or.inl ⟨d, rfl, .of_destroy hnext⟩
  | addJob p pjob => exact Or.inr ⟨by simp, .of_addJob hnext⟩
  | work i wake => exact Or.inr ⟨by simp, .of_work hvalid.1 hnext⟩
  | invoke i =>
    rw [State.next, State.invoke] at hnext
    split at hnext
    · obtain ⟨job, -, rfl⟩ := Option.map_eq_some_iff.mp hnext
      exact Or.inr ⟨by simp, .of_eq rfl rfl rfl⟩
    · contradiction
  | callbackReturn i =>
    rw [State.next, State.callbackReturn] at hnext
    split at hnext
    · obtain ⟨job, -, rfl⟩ := Option.map_eq_some_iff.mp hnext
      exact Or.inr ⟨by simp, .of_eq rfl rfl rfl⟩
    · contradiction
  | freeJob i =>
    rw [State.next, State.freeJob] at hnext
    split at hnext
    · obtain ⟨job, -, rfl⟩ := Option.map_eq_some_iff.mp hnext
      exact Or.inr ⟨by simp, rfl, fun _ => rfl, rfl, fun d => Or.inl rfl⟩
    · contradiction
  | spuriousWorker i =>
    rw [State.next] at hnext
    split at hnext
    · exact Or.inr ⟨by simp, Option.some.inj hnext ▸ .of_eq rfl rfl rfl⟩
    · contradiction
  | spuriousProducer p =>
    rw [State.next] at hnext
    split at hnext
    · exact Or.inr ⟨by simp, Option.some.inj hnext ▸ .of_eq rfl rfl rfl⟩
    · contradiction
  | spuriousDestroyer d =>
    rw [State.next] at hnext
    split at hnext
    · next hd =>
      obtain rfl := Option.some.inj hnext
      refine Or.inr ⟨by simp, rfl, fun _ => rfl, rfl, fun d' => ?_⟩
      by_cases heq : d' = d
      · subst heq
        exact Or.inr ⟨hd, by simp⟩
      · exact Or.inl (by simp [heq])
    · contradiction

end CppProject.ThreadPool
