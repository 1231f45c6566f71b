import CppProject.ThreadPool.Wakeup

/-!
# No deadlock

Every thread that is not in `pthread_cond_wait` can take a step, except a caller of
`ThreadPool_Destroy` that joins a worker. With no wakeup lost, some thread can step until all
producers have made their calls, all accepted jobs have been executed, and `ThreadPool_Destroy`
has returned.
-/

namespace CppProject.ThreadPool

variable {n : ℕ} {P : Type*} [DecidableEq P] {s s' : State n P Unit} {jobs jobs' : Jobs P}
  {label : Label n P Unit}

/-- No thread can take a step by itself. -/
def Stuck (s : State n P Unit) : Prop := ∀ label s', Step s label s' → ¬ label.IsOwn

/-- Nothing is left to do. -/
structure Done (quota : P → ℕ) (s : State n P Unit) : Prop where
  producers : ∀ p, (s.producer p).phase = .idle ∧ quota p ≤ (s.producer p).made
  jobs : AllExecuted s
  workers : ∀ i, s.worker i = .exited
  destroyed : (s.destroyer ()).Finished

namespace Stuck

/-- A step that may happen is one the thread cannot take. -/
theorem next_eq_none (hstuck : Stuck s) (label : Label n P Unit) (hown : label.IsOwn) (hvalid : label.Valid s) :
    s.next label = none :=
  Option.eq_none_iff_forall_ne_some.mpr fun s' hnext => hstuck label s' ⟨hvalid, hnext⟩ hown

/-- Every producer has made its calls or waits for room. -/
theorem not_canAdd (hstuck : Stuck s) (h : Inv s jobs) (p : P) : ¬ s.CanAdd p := fun hp => by
  have hnext := hstuck.next_eq_none (.addJob p none) trivial trivial
  rw [State.next, State.addJob, if_pos hp, Option.map_eq_none_iff] at hnext
  rcases h.queue.addJobSection_spec (s.ticket p) none (by simp) with
    ⟨hrun, _⟩ | ⟨hrun, _⟩ | ⟨q, pool', hq, _⟩
  · exact absurd (hrun ▸ hnext) (by simp)
  · exact absurd (hrun ▸ hnext) (by simp)
  · contradiction

/-- Every worker has exited or waits for a job. -/
theorem worker (hstuck : Stuck s) (h : Inv s jobs) (i : Fin n) :
    s.worker i = .waiting ∨ s.worker i = .exited := by
  have hsection : workSection s.pool ≠ none := by
    rcases h.queue.workSection_spec with ⟨hrun, _⟩ | ⟨hrun, _⟩ | ⟨_, q, t, rest, pool', _, hrun, _⟩
    all_goals rw [hrun]; simp
  -- The signal, if there is one, wakes the caller of `ThreadPool_Destroy` if it waits.
  have hwork := hstuck.next_eq_none (.work i fun _ => decide (s.destroyer () = .waiting))
    trivial ⟨fun _ hd => of_decide_eq_true hd, fun d hd => ⟨d, decide_eq_true hd⟩⟩
  have hinvoke := hstuck.next_eq_none (.invoke i) trivial trivial
  have hreturn := hstuck.next_eq_none (.callbackReturn i) trivial trivial
  have hfree := hstuck.next_eq_none (.freeJob i) trivial trivial
  have hnode : ∀ {q}, (s.worker i).pjob? = some q → s.pool.heap q ≠ none := fun hq hnone => by
    obtain ⟨t, howns⟩ := (h.worker i).owns hq
    have := howns.callback
    rw [callbackAt, hnone] at this
    contradiction
  cases hphase : s.worker i with
  | waiting => exact Or.inl rfl
  | exited => exact Or.inr rfl
  | ready => exact absurd (by simpa [State.next, State.work, hphase] using hwork) hsection
  | woken => exact absurd (by simpa [State.next, State.work, hphase] using hwork) hsection
  | holding q =>
    exact absurd (by simpa [State.next, State.invoke, hphase] using hinvoke) (hnode (by rw [hphase]; rfl))
  | running q =>
    exact absurd (by simpa [State.next, State.callbackReturn, hphase] using hreturn) (hnode (by rw [hphase]; rfl))
  | called q =>
    exact absurd (by simpa [State.next, State.freeJob, hphase] using hfree) (hnode (by rw [hphase]; rfl))

/-- The caller of `ThreadPool_Destroy` waits for an empty queue or for a worker, or has returned. -/
theorem destroyer (hstuck : Stuck s) (h : Inv s jobs) :
    s.destroyer () = .waiting ∨ (∃ i : Fin n, s.destroyer () = .join i ∧ s.worker i ≠ .exited) ∨
      (s.destroyer ()).Finished := by
  have hnext := hstuck.next_eq_none (.destroy ()) trivial trivial
  rw [State.next, State.destroy] at hnext
  cases hphase : s.destroyer () with
  | waiting => exact Or.inl rfl
  | returned => exact Or.inr (Or.inr (Or.inl rfl))
  | refused => exact Or.inr (Or.inr (Or.inr rfl))
  | join i =>
    by_cases hi : i < n
    · refine Or.inr (Or.inl ⟨⟨i, hi⟩, rfl, fun hexited => ?_⟩)
      simp [hphase, hi, hexited] at hnext
    · simp [hphase, hi] at hnext
  | release rest => cases rest <;> simp [hphase] at hnext
  | freeJobs =>
    have hhead : s.pool.mHead = none := by rw [h.queue.head_eq, h.closed (h.destroyer_at hphase).1]; rfl
    simp [hphase, hhead] at hnext
  | _ => simp [hphase] at hnext

/-- Since no wakeup is lost, nobody waits. -/
theorem done {quota : P → ℕ} (hstuck : Stuck s) (hn : 1 ≤ n) (h : Inv s jobs) (hsole : SoleCaller s)
    (hwaits : Waits s) (hquota : ∀ p, (s.producer p).quota = quota p) : Done quota s := by
  have hclosed_of_exited : ∀ i, s.worker i = .exited → s.pool.mPoolIsClose = true := fun _ => h.worker_at
  have hreturned : s.destroyer () = .returned := by
    rcases hstuck.destroyer h with hwaiting | ⟨i, hjoin, hi⟩ | hfinished
    · -- The queue is not empty, so the first worker has neither waited nor exited.
      have hne := hwaits.destroyer hwaiting
      rcases hstuck.worker h ⟨0, hn⟩ with hw | hw
      · exact absurd (hwaits.worker _ hw).1 hne
      · exact absurd (h.queue.count_eq_zero.mpr (h.closed (hclosed_of_exited _ hw))) hne
    · -- The joined worker has been woken by the broadcast.
      have hw := (hstuck.worker h i).resolve_right hi
      exact absurd (by rw [hjoin]; trivial) (hwaits.worker i hw).2
    · exact hfinished.resolve_right hsole.notRefused
  obtain ⟨hclosed, hexited⟩ := h.destroyer_at hreturned
  refine ⟨fun p => ?_, h.allExecuted hclosed hexited, hexited, Or.inl hreturned⟩
  have hcan := hstuck.not_canAdd h p
  have hwait : (s.producer p).phase ≠ .waiting := fun hp =>
    (hwaits.producer p hp).2 (by rw [hreturned]; trivial)
  rw [State.CanAdd, hquota p, not_or, not_and, not_lt] at hcan
  cases hphase : (s.producer p).phase with
  | idle => exact ⟨rfl, hcan.2 hphase⟩
  | waiting => exact absurd hphase hwait
  | woken => exact absurd hphase hcan.1

end Stuck

/-- No step changes the number of calls a producer is to make. -/
theorem Effect.quota_eq (heffect : Effect s jobs label s' jobs') (p : P) :
    (s'.producer p).quota = (s.producer p).quota := by
  have hmoved : ∀ (p' : P) (producer : Producer), producer.quota = (s.producer p').quota →
      (Function.update s.producer p' producer p).quota = (s.producer p).quota := fun p' producer hq => by
    by_cases hp : p = p'
    · rw [hp, Function.update_self, hq]
    · rw [Function.update_of_ne hp]
  have hwake : (s.producer p).wake.quota = (s.producer p).quota := by
    unfold Producer.wake
    split <;> rfl
  cases heffect with
  | addWait => exact hmoved _ _ rfl
  | addReject => exact hmoved _ _ rfl
  | addAccept => rw [State.afterAccept_producer]; exact hmoved _ _ rfl
  | workTake =>
    rw [State.afterTake_producer]
    split
    · exact hwake
    · rfl
  | broadcastNotFull => exact hwake
  | spuriousProducer => exact hmoved _ _ rfl
  | _ => rfl

/-- A producer has the number of calls to make that it was given. -/
theorem Reachable.quota_eq {queueMaxNum : ℤ} (hmax : 0 ≤ queueMaxNum) {quota : P → ℕ}
    (h : Reachable queueMaxNum quota s) : ∀ p, (s.producer p).quota = quota p := by
  refine Transition.Reachable.invariant_of (Q := fun s => ∃ jobs, Inv s jobs)
    (P := fun s => ∀ p, (s.producer p).quota = quota p)
    (fun s hs => Reachable.inv hmax hs) (fun s hs p => ?_) (fun s label s' hinv hs hstep p => ?_) h
  · rw [hs]
    rfl
  · obtain ⟨jobs, hinv⟩ := hinv
    obtain ⟨jobs', heffect, -⟩ := hinv.step hstep
    rw [heffect.quota_eq p, hs p]

/-- In every reachable state of a pool with one call of `ThreadPool_Destroy`, no thread is left
waiting for a condition that holds, and if no thread can step then all have finished. -/
theorem noLostWakeup_noDeadlock {queueMaxNum : ℤ} {quota : P → ℕ} (hn : 1 ≤ n) (hmax : 1 ≤ queueMaxNum)
    (h : Reachable queueMaxNum quota s) : NoLostWakeup s ∧ (Stuck s → Done quota s) := by
  obtain ⟨jobs, hinv, hsole, hwaits⟩ := h.waits (by omega)
  exact ⟨hwaits.noLostWakeup, fun hstuck => hstuck.done hn hinv hsole hwaits (h.quota_eq (by omega))⟩

/-- The worker has been woken by the first job; the second producer and `ThreadPool_Destroy` wait for it
to be taken. -/
theorem noLostWakeup_noDeadlock_waiting : ∃ s : State 1 (Fin 2) Unit,
    s.worker 0 = .woken ∧ (s.producer 1).phase = .waiting ∧ s.destroyer () = .waiting ∧
      NoLostWakeup s ∧ (Stuck s → Done (fun _ => 1) s) := by
  let labels : List (Label 1 (Fin 2) Unit) :=
    [.work 0 (fun _ => false), .addJob 0 (some 8), .addJob 1 none, .destroy ()]
  have hrun : (Transition.replay (fun s label => s.check label) (State.new 1 Unit 1 fun _ => 1) labels).map
      (fun s => (s.worker 0, (s.producer 1).phase, s.destroyer ())) =
        some (.woken, .waiting, .waiting) := by decide
  obtain ⟨s, hrun, hs⟩ := Option.map_eq_some_iff.mp hrun
  obtain ⟨hworker, hs⟩ := Prod.mk.inj hs
  obtain ⟨hproducer, hdestroyer⟩ := Prod.mk.inj hs
  have hreach : Reachable 1 (fun _ => 1) s :=
    Transition.Reachable.replay (fun s _ _ => s.step_of_check) (.init rfl) hrun
  exact ⟨s, hworker, hproducer, hdestroyer, noLostWakeup_noDeadlock le_rfl le_rfl hreach⟩

end CppProject.ThreadPool
