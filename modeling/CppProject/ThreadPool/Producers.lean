import CppProject.ThreadPool.Teardown

/-!
# Producers and the teardown

A producer that acquires the mutex after the pool is closed is rejected, and after the two broadcasts
of `ThreadPool_Destroy` no producer waits. But only the workers are joined: nothing makes the teardown
wait for a producer that has been woken, or is yet to make a call, before it destroys the mutex.
-/

namespace CppProject.ThreadPool

variable {n : ℕ} {P D : Type*} {s s' : State n P D}

/-- The producer has returned from its last call. -/
def Producer.Retired (producer : Producer) : Prop :=
  producer.phase = .idle ∧ producer.quota ≤ producer.made

instance Producer.decidableRetired (producer : Producer) : Decidable producer.Retired :=
  inferInstanceAs (Decidable (_ ∧ _))

/-- The next step of the call destroys the mutex or a condition variable, or frees `m_pthreads`. -/
def DestroyPhase.Releases : DestroyPhase → Prop
  | .release (_ :: _) => True
  | _ => False

instance DestroyPhase.decidableReleases : (phase : DestroyPhase) → Decidable phase.Releases
  | .release (_ :: _) => inferInstanceAs (Decidable True)
  | .release [] => inferInstanceAs (Decidable False)
  | .start => inferInstanceAs (Decidable False)
  | .waiting => inferInstanceAs (Decidable False)
  | .woken => inferInstanceAs (Decidable False)
  | .broadcastNotEmpty => inferInstanceAs (Decidable False)
  | .broadcastNotFull => inferInstanceAs (Decidable False)
  | .join _ => inferInstanceAs (Decidable False)
  | .freeJobs => inferInstanceAs (Decidable False)
  | .returned => inferInstanceAs (Decidable False)
  | .refused => inferInstanceAs (Decidable False)

/-- Such a call has something left to release. -/
theorem DestroyPhase.Releases.exists_eq {phase : DestroyPhase} (h : phase.Releases) :
    ∃ r rest, phase = .release (r :: rest) := by
  cases phase with
  | release rest =>
    cases rest with
    | nil => exact h.elim
    | cons r rest => exact ⟨r, rest, rfl⟩
  | _ => exact h.elim

/-- It has issued both broadcasts. -/
theorem DestroyPhase.Releases.bothSent {phase : DestroyPhase} (h : phase.Releases) : phase.BothSent := by
  cases phase <;> trivial

/-- A producer that has returned does not wait. -/
theorem Producer.Retired.wake {producer : Producer} (h : producer.Retired) : producer.wake = producer :=
  if_neg (by simp [h.1])

/-- It adds no more jobs. -/
theorem Producer.Retired.not_canAdd {p : P} (h : (s.producer p).Retired) : ¬ s.CanAdd p := by
  rintro (hwoken | ⟨-, hmade⟩)
  · exact absurd (h.1.symm.trans hwoken) (by simp)
  · exact absurd hmade (not_lt.mpr h.2)

/-- A producer that does not wait and has not returned from its last call can take a step. -/
theorem State.canAdd_of_not_retired {p : P} (hretired : ¬ (s.producer p).Retired)
    (hwait : (s.producer p).phase ≠ .waiting) : s.CanAdd p := by
  cases hphase : (s.producer p).phase with
  | idle => exact Or.inr ⟨hphase, not_le.mp fun hmade => hretired ⟨hphase, hmade⟩⟩
  | waiting => exact absurd hphase hwait
  | woken => exact Or.inl hphase

variable [DecidableEq P] [DecidableEq D] {label : Label n P D}

/-- After anything is destroyed or freed no producer has a step to take or waits, and from closing on
producers are rejected. -/
structure LockOutlivesProducers (s : State n P D) : Prop where
  unused : s.released ≠ [] → ∀ p, (s.producer p).phase = .idle ∧ ∀ pjob s', ¬ Step s (.addJob p pjob) s'
  rejected : s.pool.mPoolIsClose = true → ∀ p pjob s', Step s (.addJob p pjob) s' →
    s'.pool = s.pool ∧ s'.log.enqueued = s.log.enqueued ∧ s'.log.rejected = s.log.rejected ++ [s.ticket p]

/-- Whatever is released is released when all producers have returned from their last calls. -/
def ProducersRetired (s : State n P D) : Label n P D → Prop
  | .destroy d => (s.destroyer d).Releases → ∀ p, (s.producer p).Retired
  | _ => True

instance ProducersRetired.decidable [Fintype P] (s : State n P D) :
    (label : Label n P D) → Decidable (ProducersRetired s label)
  | .destroy d => inferInstanceAs (Decidable ((s.destroyer d).Releases → ∀ p, (s.producer p).Retired))
  | .addJob _ _ => inferInstanceAs (Decidable True)
  | .work _ _ => inferInstanceAs (Decidable True)
  | .invoke _ => inferInstanceAs (Decidable True)
  | .callbackReturn _ => inferInstanceAs (Decidable True)
  | .freeJob _ => inferInstanceAs (Decidable True)
  | .spuriousWorker _ => inferInstanceAs (Decidable True)
  | .spuriousProducer _ => inferInstanceAs (Decidable True)
  | .spuriousDestroyer _ => inferInstanceAs (Decidable True)

/-! ## What a step does to the producers -/

omit [DecidableEq D] in
/-- A section of `ThreadPool_AddJob` in a closed pool. -/
theorem State.addJob_closed (hclosed : s.pool.mPoolIsClose = true) {p : P} (hp : s.CanAdd p)
    (pjob : Option JobPtr) : s.addJob p pjob = some (s.afterAddJob p (.reject, s.pool)) := by
  rw [State.addJob, if_pos hp]
  simp [addJobSection, hclosed]

omit [DecidableEq D] in
/-- Only a producer with calls left adds a job. -/
theorem State.canAdd_of_addJob {p : P} {pjob : Option JobPtr} (h : s.addJob p pjob = some s') : s.CanAdd p :=
  (Option.ite_none_right_eq_some.mp h).1

omit [DecidableEq P] in
/-- A step of a call leaves the producers alone but for its broadcast. -/
theorem Teardown.producer_eq {d : D} (h : Teardown s d s') :
    s'.producer = s.producer ∨ s.destroyer d = .broadcastNotFull ∧ s'.producer = s.wakeProducers.producer := by
  cases h with
  | advance _ _ _ _ _ _ _ _ hproducer => exact Or.inl hproducer
  | broadcastNotFull hd => exact Or.inr ⟨hd, rfl⟩
  | _ => exact Or.inl rfl

/-- A step is one of a producer, or leaves all of them as they are but for a broadcast. -/
theorem Step.producer_cases (hstep : Step s label s') :
    (∃ p pjob, label = .addJob p pjob ∧ s.addJob p pjob = some s') ∨
      (∃ p, label = .spuriousProducer p ∧ (s.producer p).phase = .waiting ∧ s' = s.setProducer p .woken) ∨
      s'.producer = s.producer ∨ s'.producer = s.wakeProducers.producer := by
  obtain ⟨-, hnext⟩ := hstep
  cases label with
  | addJob p pjob => exact Or.inl ⟨p, pjob, rfl, hnext⟩
  | spuriousProducer p =>
    rw [State.next] at hnext
    split at hnext
    · exact Or.inr (Or.inl ⟨p, rfl, by assumption, (Option.some.inj hnext).symm⟩)
    · contradiction
  | work i wake =>
    have hrun : (workSection s.pool).map (s.afterWork i wake) = some s' := by
      rw [State.next, State.work] at hnext
      split at hnext
      · exact hnext
      · exact hnext
      · contradiction
    obtain ⟨⟨outcome, pool⟩, -, rfl⟩ := Option.map_eq_some_iff.mp hrun
    cases outcome with
    | wait => exact Or.inr (Or.inr (Or.inl rfl))
    | exit => exact Or.inr (Or.inr (Or.inl rfl))
    | take q signal broadcast =>
      cases broadcast
      · exact Or.inr (Or.inr (Or.inl (funext fun p => by simp)))
      · exact Or.inr (Or.inr (Or.inr (funext fun p => by simp)))
  | destroy d => exact Or.inr (Or.inr ((Teardown.of_destroy hnext).producer_eq.imp_right And.right))
  | invoke i =>
    rw [State.next, State.invoke] at hnext
    split at hnext
    · obtain ⟨job, -, rfl⟩ := Option.map_eq_some_iff.mp hnext
      exact Or.inr (Or.inr (Or.inl rfl))
    · contradiction
  | callbackReturn i =>
    rw [State.next, State.callbackReturn] at hnext
    split at hnext
    · obtain ⟨job, -, rfl⟩ := Option.map_eq_some_iff.mp hnext
      exact Or.inr (Or.inr (Or.inl rfl))
    · contradiction
  | freeJob i =>
    rw [State.next, State.freeJob] at hnext
    split at hnext
    · obtain ⟨job, -, rfl⟩ := Option.map_eq_some_iff.mp hnext
      exact Or.inr (Or.inr (Or.inl rfl))
    · contradiction
  | spuriousWorker i =>
    rw [State.next] at hnext
    split at hnext
    · exact Or.inr (Or.inr (Or.inl (Option.some.inj hnext ▸ rfl)))
    · contradiction
  | spuriousDestroyer d =>
    rw [State.next] at hnext
    split at hnext
    · exact Or.inr (Or.inr (Or.inl (Option.some.inj hnext ▸ rfl)))
    · contradiction

/-- Producers that have returned from their last calls stay so. -/
theorem Step.retired (hstep : Step s label s') (hall : ∀ p, (s.producer p).Retired) (p : P) :
    (s'.producer p).Retired := by
  rcases hstep.producer_cases with ⟨p', pjob, -, hadd⟩ | ⟨p', -, hwaiting, -⟩ | hsame | hwake
  · exact absurd (State.canAdd_of_addJob hadd) (hall p').not_canAdd
  · exact absurd ((hall p').1.symm.trans hwaiting) (by simp)
  · rw [hsame]
    exact hall p
  · rw [hwake, State.wakeProducers_producer, (hall p).wake]
    exact hall p

/-- Only a call that is about to release something does. -/
theorem Step.released_eq (hstep : Step s label s') :
    s'.released = s.released ∨ ∃ d, label = .destroy d ∧ (s.destroyer d).Releases := by
  rcases hstep.teardown_cases with ⟨d, rfl, heffect⟩ | ⟨-, houtside⟩
  · cases heffect with
    | advance _ _ _ _ _ _ _ hreleased => exact Or.inl hreleased
    | release hd => exact Or.inr ⟨d, rfl, hd ▸ trivial⟩
    | _ => exact Or.inl rfl
  · exact Or.inl houtside.released

omit [DecidableEq P] in
/-- What holds of a call after a step of some call held before, if that step has not brought it about. -/
theorem State.of_update_destroyer {Q : DestroyPhase → Prop} {d d' : D} {phase : DestroyPhase}
    (h : Q (Function.update s.destroyer d' phase d)) (hphase : Q phase → Q (s.destroyer d')) :
    Q (s.destroyer d) := by
  by_cases hd : d = d'
  · subst hd
    rw [Function.update_self] at h
    exact hphase h
  · rwa [Function.update_of_ne hd] at h

/-- A call gets past its broadcasts by broadcasting. -/
theorem Step.bothSent (hstep : Step s label s') {d : D} (hsent : (s'.destroyer d).BothSent) :
    (s.destroyer d).BothSent ∨ s'.producer = s.wakeProducers.producer := by
  rcases hstep.teardown_cases with ⟨d', rfl, heffect⟩ | ⟨-, houtside⟩
  · have hmoved : ∀ phase : DestroyPhase, s'.destroyer = Function.update s.destroyer d' phase →
        (phase.BothSent → (s.destroyer d').BothSent) → (s.destroyer d).BothSent := fun phase heq hphase =>
      State.of_update_destroyer (heq ▸ hsent) hphase
    cases heffect with
    | refuse => exact Or.inl (hmoved _ rfl False.elim)
    | wait => exact Or.inl (hmoved _ rfl False.elim)
    | close => exact Or.inl (hmoved _ rfl False.elim)
    | advance _ _ _ hphase _ _ _ _ _ hdestroyer => exact Or.inl (hmoved _ hdestroyer hphase)
    | broadcastNotFull => exact Or.inr rfl
    | release hd => exact Or.inl (hmoved (.release _) rfl fun _ => hd ▸ trivial)
  · rw [houtside.closing_eq (Or.inr hsent.notEmptySent.closing)] at hsent
    exact Or.inl hsent

/-! ## Runs -/

/-- What the calls of `ThreadPool_Destroy` say about the flag and the producers. -/
structure Shutdown (s : State n P D) : Prop where
  closed : ∀ d, (s.destroyer d).Closing → s.pool.mPoolIsClose = true
  sent : ∀ d, (s.destroyer d).BothSent → ∀ p, (s.producer p).phase ≠ .waiting

omit [DecidableEq P] [DecidableEq D] in
/-- After `Init` no call has closed the pool. -/
theorem shutdown_new (queueMaxNum : ℤ) (quota : P → ℕ) : Shutdown (State.new n D queueMaxNum quota) :=
  ⟨fun _ hd => False.elim hd, fun _ hd => False.elim hd⟩

namespace Shutdown

/-- A call in the teardown has closed the pool, which stays closed. -/
theorem closed_step (h : Shutdown s) (hstep : Step s label s') (d : D) (hd : (s'.destroyer d).Closing) :
    s'.pool.mPoolIsClose = true := by
  rcases hstep.teardown_cases with ⟨d', rfl, heffect⟩ | ⟨-, houtside⟩
  · have hmoved : ∀ phase : DestroyPhase, s'.destroyer = Function.update s.destroyer d' phase →
        (phase.Closing → (s.destroyer d').Closing) → s.pool.mPoolIsClose = true := fun phase heq hphase =>
      h.closed d (State.of_update_destroyer (heq ▸ hd) hphase)
    cases heffect with
    | refuse => exact hmoved _ rfl False.elim
    | wait => exact hmoved _ rfl False.elim
    | close => rfl
    | advance _ hclosing _ _ _ hclosed _ _ _ hdestroyer => exact hclosed.trans (hmoved _ hdestroyer fun _ => hclosing)
    | broadcastNotFull hd' => exact hmoved (.join 0) rfl fun _ => hd' ▸ trivial
    | release hd' => exact hmoved (.release _) rfl fun _ => hd' ▸ trivial
  · rw [houtside.closing_eq (Or.inr hd)] at hd
    exact houtside.closed.trans (h.closed d hd)

/-- After the broadcasts no producer waits: in a closed pool none begins to. -/
theorem sent_step (h : Shutdown s) (hstep : Step s label s') (d : D) (hd : (s'.destroyer d).BothSent) (p : P) :
    (s'.producer p).phase ≠ .waiting := by
  rcases hstep.bothSent hd with hd | hwake
  · have hclosed := h.closed d hd.notEmptySent.closing
    rcases hstep.producer_cases with ⟨p', pjob, -, hadd⟩ | ⟨p', -, -, rfl⟩ | hsame | hwake
    · rw [State.addJob_closed hclosed (State.canAdd_of_addJob hadd), Option.some.injEq] at hadd
      subst hadd
      have hmoved : (s.afterAddJob p' (.reject, s.pool)).producer =
        Function.update s.producer p' (s.producer p').finishCall := rfl
      rw [hmoved]
      by_cases hp : p = p'
      · rw [hp, Function.update_self]
        simp [Producer.finishCall]
      · rw [Function.update_of_ne hp]
        exact h.sent d hd p
    · rw [State.setProducer_producer]
      by_cases hp : p = p'
      · rw [hp, Function.update_self]
        simp [Producer.moveTo]
      · rw [Function.update_of_ne hp]
        exact h.sent d hd p
    · rw [hsame]
      exact h.sent d hd p
    · rw [hwake]
      exact Producer.wake_phase_ne _
  · rw [hwake]
    exact Producer.wake_phase_ne _

/-- Every step keeps it so. -/
theorem step (h : Shutdown s) (hstep : Step s label s') : Shutdown s' :=
  ⟨h.closed_step hstep, h.sent_step hstep⟩

end Shutdown

/-- Whatever has been released, no producer is left. -/
def ReleasedLast (s : State n P D) : Prop := s.released ≠ [] → ∀ p, (s.producer p).Retired

/-- A step that meets the condition keeps it so. -/
theorem ReleasedLast.step (h : ReleasedLast s) (hstep : Step s label s') (hcond : ProducersRetired s label) :
    ReleasedLast s' := fun hreleased => by
  rcases hstep.released_eq with heq | ⟨d, rfl, hd⟩
  · exact hstep.retired (h (heq ▸ hreleased))
  · exact hstep.retired (hcond hd)

/-- Then no producer finds the mutex destroyed. -/
theorem ReleasedLast.lockOutlivesProducers (h : ReleasedLast s) : LockOutlivesProducers s where
  unused := fun hreleased p => ⟨(h hreleased p).1, fun pjob s' hstep =>
    (h hreleased p).not_canAdd (State.canAdd_of_addJob hstep.2)⟩
  rejected := fun hclosed p pjob s' hstep => by
    have hnext : s.addJob p pjob = some s' := hstep.2
    rw [State.addJob_closed hclosed (State.canAdd_of_addJob hnext), Option.some.injEq] at hnext
    subst hnext
    exact ⟨rfl, rfl, rfl⟩

/-- When something is released before a producer has returned from its last call, that producer can
still acquire the mutex. -/
theorem Shutdown.retired_of_releases (h : Shutdown s) {d : D} (hstep : Step s (.destroy d) s')
    (hd : (s.destroyer d).Releases) (hsafe : LockOutlivesProducers s') (p : P) : (s.producer p).Retired := by
  by_contra hretired
  obtain ⟨r, rest, hphase⟩ := hd.exists_eq
  have hnext : s.destroy d = some s' := hstep.2
  simp only [State.destroy, hphase, Option.some.injEq] at hnext
  have hproducer : s'.producer = s.producer := hnext ▸ rfl
  have hreleased : s'.released = s.released ++ [r] := hnext ▸ rfl
  have hpool : s'.pool = s.pool := hnext ▸ rfl
  have hclosed : s'.pool.mPoolIsClose = true := hpool ▸ h.closed d hd.bothSent.notEmptySent.closing
  have hcan : s'.CanAdd p := by
    rw [State.CanAdd, hproducer]
    exact State.canAdd_of_not_retired hretired (h.sent d hd.bothSent p)
  exact (hsafe.unused (by simp [hreleased]) p).2 none _ ⟨trivial, State.addJob_closed hclosed hcan none⟩

/-- In every run in which whatever is released is released after all producers have returned from their
last calls, no producer acquires the mutex or waits once anything is released, and producers are
rejected from closing on. A release before that leaves a producer that can acquire the mutex. -/
theorem lockOutlivesProducers_of_producersRetired {queueMaxNum : ℤ} {quota : P → ℕ}
    (h : Transition.Reachable (· = State.new n D queueMaxNum quota)
      (Transition.Restrict Step ProducersRetired) s) :
    LockOutlivesProducers s ∧
      ∀ label s', Step s label s' → (LockOutlivesProducers s' ↔ ProducersRetired s label) := by
  obtain ⟨hshut, hlast⟩ : Shutdown s ∧ ReleasedLast s := Transition.Reachable.invariant
    (P := fun s => Shutdown s ∧ ReleasedLast s)
    (fun s hs => hs ▸ ⟨shutdown_new queueMaxNum quota, fun hreleased => absurd rfl hreleased⟩)
    (fun s label s' hs hstep => ⟨hs.1.step hstep.1, hs.2.step hstep.1 hstep.2⟩) h
  refine ⟨hlast.lockOutlivesProducers, fun label s' hstep => ⟨fun hsafe => ?_, fun hcond =>
    (hlast.step hstep hcond).lockOutlivesProducers⟩⟩
  cases label with
  | destroy d => exact fun hd => hshut.retired_of_releases hstep hd hsafe
  | _ => trivial

/-- A producer that is woken from a full queue adds its job in time, and the mutex is destroyed. -/
theorem lockOutlivesProducers_of_producersRetired_run : ∃ s : State 1 (Fin 2) Unit,
    s.released = [.mutex] ∧ s.log.enqueued = [(0, 0), (1, 0)] ∧
      (LockOutlivesProducers s ∧
        ∀ label s', Step s label s' → (LockOutlivesProducers s' ↔ ProducersRetired s label)) := by
  let labels : List (Label 1 (Fin 2) Unit) := [.addJob 0 (some 8), .addJob 1 none,
    .work 0 (fun _ => false), .invoke 0, .addJob 1 (some 16), .destroy (), .callbackReturn 0,
    .freeJob 0, .work 0 (fun _ => true), .destroy (), .invoke 0, .callbackReturn 0, .freeJob 0,
    .work 0 (fun _ => false), .destroy (), .destroy (), .destroy (), .destroy (), .destroy ()]
  have hrun : (Transition.replay (Transition.guard ProducersRetired fun s label => s.check label)
      (State.new 1 Unit 1 fun _ => 1) labels).map (fun s => (s.released, s.log.enqueued)) =
        some ([.mutex], [(0, 0), (1, 0)]) := by decide
  obtain ⟨s, hrun, hs⟩ := Option.map_eq_some_iff.mp hrun
  obtain ⟨hreleased, henqueued⟩ := Prod.mk.inj hs
  exact ⟨s, hreleased, henqueued, lockOutlivesProducers_of_producersRetired
    (Transition.Reachable.replay_guard (fun s _ _ => s.step_of_check) (.init rfl) hrun)⟩

/-- The worker takes the only job, which wakes a producer that waits for room and `ThreadPool_Destroy`.
The producer comes last, to a destroyed mutex. -/
theorem producer_after_teardown : ∃ s s' : State 1 (Fin 2) Unit, Reachable 1 (fun _ => 1) s ∧
    s.released = [.mutex] ∧ (s.producer 1).phase = .woken ∧ Step s (.addJob 1 none) s' ∧
      ¬ LockOutlivesProducers s := by
  let labels : List (Label 1 (Fin 2) Unit) := [.addJob 0 (some 8), .addJob 1 none, .destroy (),
    .work 0 (fun _ => true), .destroy (), .invoke 0, .callbackReturn 0, .freeJob 0,
    .work 0 (fun _ => false), .destroy (), .destroy (), .destroy (), .destroy (), .destroy ()]
  have hrun : ((Transition.replay (fun s label => s.check label) (State.new 1 Unit 1 fun _ => 1) labels).bind
      fun s => (s.check (.addJob 1 none)).map fun _ => (s.released, (s.producer 1).phase)) =
        some ([.mutex], .woken) := by decide
  obtain ⟨s, hrun, hstep⟩ := Option.bind_eq_some_iff.mp hrun
  obtain ⟨s', hstep, hs⟩ := Option.map_eq_some_iff.mp hstep
  obtain ⟨hreleased, hwoken⟩ := Prod.mk.inj hs
  have hreach : Reachable 1 (fun _ => 1) s :=
    Transition.Reachable.replay (fun s _ _ => s.step_of_check) (.init rfl) hrun
  refine ⟨s, s', hreach, hreleased, hwoken, s.step_of_check hstep, fun hsafe => ?_⟩
  exact (hsafe.unused (by simp [hreleased]) 1).2 none s' (s.step_of_check hstep)

end CppProject.ThreadPool
