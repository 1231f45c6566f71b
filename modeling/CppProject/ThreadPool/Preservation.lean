import CppProject.ThreadPool.Invariant

/-!
# Every step keeps the invariant

One lemma for each part of the invariant, by cases on what the step does.
-/

namespace CppProject.ThreadPool

variable {n : ℕ} {P D : Type*} [DecidableEq P] [DecidableEq D] {s s' : State n P D} {jobs jobs' : Jobs P}
  {label : Label n P D}

/-- The pool stays closed. -/
theorem Effect.closed_mono (h : Effect s jobs label s' jobs') (hclosed : s.pool.mPoolIsClose = true) :
    s'.pool.mPoolIsClose = true := by
  cases h with
  | addAccept _ hopen => exact absurd hclosed (by simp [hopen])
  | workTake _ _ hopen => exact absurd hclosed (by simp [hopen])
  | destroyClose => rfl
  | _ => exact hclosed

/-- A worker that has exited does nothing more. -/
theorem Effect.exited_mono (h : Effect s jobs label s' jobs') {j : Fin n} (hj : s.worker j = .exited) :
    s'.worker j = .exited := by
  have hmoved : ∀ {i : Fin n} {phase : WorkerPhase}, s.worker i ≠ .exited →
      Function.update s.worker i phase j = .exited := fun {i _} hi => by
    have hne : j ≠ i := fun heq => hi (heq ▸ hj)
    rw [Function.update_of_ne hne, hj]
  cases h with
  | addAccept => simp [hj]
  | workWait hi => exact hmoved (by rcases hi with hi | hi <;> simp [hi])
  | workExit hi => exact hmoved (by rcases hi with hi | hi <;> simp [hi])
  | workTake hi =>
    rw [State.afterTake_worker]
    exact hmoved (by rcases hi with hi | hi <;> simp [hi])
  | invoke hi => exact hmoved (by simp [hi])
  | callbackReturn hi => exact hmoved (by simp [hi])
  | freeJob hi => exact hmoved (by simp [hi])
  | broadcastNotEmpty => simp [hj]
  | spuriousWorker hi => exact hmoved (by simp [hi])
  | _ => exact hj

/-- Calls of a producer only accumulate. -/
theorem Effect.made_mono (h : Effect s jobs label s' jobs') (p : P) :
    (s.producer p).made ≤ (s'.producer p).made := by
  have hmoved : ∀ {p' : P} {producer : Producer}, (s.producer p').made ≤ producer.made →
      (s.producer p).made ≤ (Function.update s.producer p' producer p).made := fun {p' _} hle => by
    by_cases hp : p = p'
    · subst hp
      rwa [Function.update_self]
    · rw [Function.update_of_ne hp]
  cases h with
  | addWait => exact hmoved (le_refl _)
  | addReject => exact hmoved (Nat.le_succ _)
  | addAccept =>
    rw [State.afterAccept_producer]
    exact hmoved (Nat.le_succ _)
  | workTake =>
    rw [State.afterTake_producer]
    split <;> simp
  | broadcastNotFull => simp
  | spuriousProducer => exact hmoved (le_refl _)
  | _ => exact le_refl _

namespace Inv

/-- Every step keeps what is known of the callers of `ThreadPool_Destroy`. -/
theorem destroyer_step (h : Inv s jobs) (heffect : Effect s jobs label s' jobs') :
    ∀ d, DestroyOk s' (s'.destroyer d) := by
  have hmono : ∀ d, DestroyOk s' (s.destroyer d) := fun d =>
    (h.destroyer d).mono heffect.closed_mono fun _ => heffect.exited_mono
  have hat : ∀ {d : D} {phase : DestroyPhase}, s.destroyer d = phase → DestroyOk s' phase :=
    fun {d _} hd => hd ▸ hmono d
  have hmoved : ∀ {d : D} {phase : DestroyPhase}, DestroyOk s' phase →
      ∀ d', DestroyOk s' (Function.update s.destroyer d phase d') := fun hphase =>
    (Function.forall_update_iff _ fun _ phase => DestroyOk s' phase).mpr ⟨hphase, fun d _ => hmono d⟩
  cases heffect with
  | addAccept => simpa using hmono
  | @workTake i wake q t rest pool' _ hvalid _ _ _ _ _ =>
    intro d
    rw [State.afterTake_destroyer]
    split
    · trivial
    · exact hmono d
  | destroyRefuse _ hclosed => exact hmoved hclosed
  | destroyWait => exact hmoved trivial
  | destroyClose => exact hmoved (rfl : true = true)
  | broadcastNotEmpty hd =>
    have hclosed := hat hd
    exact hmoved hclosed
  | broadcastNotFull hd => exact hmoved ⟨hat hd, fun j hj => absurd hj (Nat.not_lt_zero _)⟩
  | @join d i hd hexited =>
    obtain ⟨hclosed, hjoined⟩ := hat hd
    refine hmoved ⟨hclosed, fun j hj => ?_⟩
    rcases Nat.lt_succ_iff_lt_or_eq.mp hj with hj | hj
    · exact hjoined j hj
    · rw [Fin.ext hj]
      exact hexited
  | joined hd hn =>
    obtain ⟨hclosed, hjoined⟩ := hat hd
    exact hmoved ⟨hclosed, fun j => hjoined j (lt_of_lt_of_le j.isLt hn)⟩
  | release hd =>
    have hall := hat hd
    exact hmoved hall
  | released hd =>
    have hall := hat hd
    exact hmoved hall
  | freed hd =>
    have hall := hat hd
    exact hmoved hall
  | spuriousDestroyer => exact hmoved trivial
  | _ => exact hmono

/-- Every step keeps the linked list. -/
theorem queue_step (h : Inv s jobs) (heffect : Effect s jobs label s' jobs') : Queue s'.pool jobs' := by
  cases heffect with
  | addAccept _ _ _ _ hqueue => simpa using hqueue
  | workTake _ _ _ _ _ _ hrest => simpa using hrest
  | @freeJob i q t hi hq =>
    obtain ⟨t', howns⟩ := (h.worker i).owns (q := q) (by rw [hi]; rfl)
    have hout := h.owns_not_queued howns
    have hheap : ∀ e ∈ jobs, Function.update s.pool.heap q none e.1 = s.pool.heap e.1 := fun e he =>
      Function.update_of_ne (hout e he) _ _
    refine ⟨h.queue.chain.congr fun p hp => ?_, h.queue.tail, h.queue.count, fun e he => ?_, h.queue.bound⟩
    · obtain ⟨e, he, rfl⟩ := List.mem_map.mp hp
      simp only [nextAt, hheap e he]
    · change callbackAt (Function.update s.pool.heap q none) e.1 = some e.2
      rw [callbackAt, hheap e he]
      exact h.queue.nodes e he
  | destroyClose => exact ⟨h.queue.chain, h.queue.tail, h.queue.count, h.queue.nodes, h.queue.bound⟩
  | _ => exact h.queue

/-- Every step keeps the books. -/
theorem ledger_step (h : Inv s jobs) (heffect : Effect s jobs label s' jobs') :
    Ledger s'.log (jobs'.map Prod.snd) := by
  cases heffect with
  | @addReject p => exact h.ledger.reject (h.ticket_fresh p)
  | @addAccept p =>
    rw [State.afterAccept_log, List.map_append, List.map_singleton]
    exact h.ledger.enqueue (h.ticket_fresh p)
  | @workTake i wake q t rest pool' _ _ _ hjobs _ _ _ =>
    subst hjobs
    have hticket : s.ticketAt q = [t] := State.ticketAt_eq (h.queue.nodes (q, t) List.mem_cons_self)
    rw [State.afterTake_log, hticket]
    exact h.ledger.dequeue i
  | @invoke i q t hi hq =>
    obtain ⟨howns, hnew⟩ := h.holding hi hq
    exact h.ledger.invoke howns.dequeued hnew
  | @callbackReturn i q t hi hq =>
    obtain ⟨howns, hstarted, hnew⟩ := h.running hi hq
    exact h.ledger.complete hstarted hnew
  | @freeJob i q t hi hq =>
    obtain ⟨howns, hdone⟩ := h.called hi hq
    exact h.ledger.free hdone howns.unfreed
  | _ => exact h.ledger

/-- No producer's recorded calls run ahead of those it has made. -/
theorem made_step (h : Inv s jobs) (heffect : Effect s jobs label s' jobs') :
    ∀ t ∈ s'.log.enqueued ++ s'.log.rejected, t.2 < (s'.producer t.1).made := by
  have hmono : ∀ t ∈ s.log.enqueued ++ s.log.rejected, t.2 < (s'.producer t.1).made := fun t ht =>
    lt_of_lt_of_le (h.made t ht) (heffect.made_mono t.1)
  have hticket : ∀ p, (Function.update s.producer p (s.producer p).finishCall p).made =
      (s.producer p).made + 1 := fun p => by rw [Function.update_self]; rfl
  cases heffect with
  | @addReject p =>
    intro t ht
    have ht : t ∈ s.log.enqueued ++ s.log.rejected ++ [s.ticket p] := by
      rw [List.append_assoc]
      exact ht
    rcases List.mem_append.mp ht with ht | ht
    · exact hmono t ht
    · rw [List.mem_singleton.mp ht]
      exact (Nat.lt_succ_self _).trans_eq (hticket p).symm
  | @addAccept p =>
    intro t ht
    rw [State.afterAccept_log, List.append_assoc, List.singleton_append] at ht
    rcases List.mem_cons.mp (List.perm_middle.mem_iff.mp ht) with rfl | ht
    · rw [State.afterAccept_producer]
      exact (Nat.lt_succ_self _).trans_eq (hticket p).symm
    · exact hmono t ht
  | workTake =>
    rw [State.afterTake_log]
    exact hmono
  | _ => exact hmono

/-- A closed pool has no jobs after a step either. -/
theorem closed_step (h : Inv s jobs) (heffect : Effect s jobs label s' jobs')
    (hclosed : s'.pool.mPoolIsClose = true) : jobs' = [] := by
  cases heffect with
  | addAccept _ hopen _ hpush =>
    rw [State.afterAccept_pool, hpush.closed, hopen] at hclosed
    exact absurd hclosed (by simp)
  | workTake _ _ hopen _ _ hpop =>
    rw [State.afterTake_pool, hpop.closed, hopen] at hclosed
    exact absurd hclosed (by simp)
  | destroyClose _ hempty => exact hempty
  | _ => exact h.closed hclosed

/-- Every step keeps what is known of the workers. -/
theorem worker_step (h : Inv s jobs) (heffect : Effect s jobs label s' jobs') :
    ∀ i, WorkerOk s' i (s'.worker i) := by
  have hclosed := heffect.closed_mono
  -- What one worker does to the log does not concern the jobs of another.
  have hne : ∀ {t t' : Ticket P} {i j : Fin n} {l : List (Ticket P × Fin n)}, j ≠ i →
      ((t', j) ∈ l ++ [(t, i)] ↔ (t', j) ∈ l) := fun hji => by simp [hji]
  cases heffect with
  | @addAccept p q pool' _ _ _ hpush _ =>
    have hok : ∀ i, WorkerOk (s.afterAddJob p (.accept jobs.isEmpty, pool')) i (s.worker i) := fun i => by
      refine (h.worker i).mono (fun r t _ ht => ?_) (by simp) (by simp) (by simp) (by simp) hclosed
      rw [State.afterAccept_pool]
      exact hpush.callbackAt_eq ht.callback
    intro i
    rw [State.afterAccept_worker]
    split
    · exact (hok i).wake
    · exact hok i
  | workWait => exact h.worker_moved trivial fun _ _ hok => hok.congr rfl rfl
  | @workExit i _ _ hexit =>
    have hphase : WorkerOk (s.setWorker i .exited) i .exited := hexit
    exact h.worker_moved hphase fun _ _ hok => hok.congr rfl rfl
  | addReject =>
    exact fun i => (h.worker i).mono (fun _ _ _ ht => ht.callback) (List.Subset.refl _)
      (fun _ _ => Iff.rfl) (fun _ _ => Iff.rfl) (fun _ _ => id) id
  | @workTake i wake q t rest pool' hi _ _ hjobs _ hpop _ =>
    subst hjobs
    have hnode : callbackAt s.pool.heap q = some t := h.queue.nodes (q, t) List.mem_cons_self
    have hticket : s.ticketAt q = [t] := State.ticketAt_eq hnode
    have hnew : ∀ j, (t, j) ∉ s.log.dequeued := h.ledger.not_dequeued List.mem_cons_self
    rw [State.afterTake_worker]
    refine h.worker_moved ⟨t, ⟨?_, ?_, ?_⟩, ?_⟩ fun j hj hok => ?_
    · rw [State.afterTake_pool, hpop.heap, hnode]
    · rw [State.afterTake_log, hticket]
      simp
    · rw [State.afterTake_log]
      intro hmem
      obtain ⟨j, -, hdequeued⟩ := h.ledger.freed_dequeued hmem
      exact hnew j hdequeued
    · rw [State.afterTake_log]
      exact fun hmem => hnew i (h.ledger.invokedOf hmem)
    · refine hok.mono (fun r t' _ ht => ?_) ?_ (by simp) (by simp) (by simp) hclosed
      · rw [State.afterTake_pool, hpop.heap]
        exact ht.callback
      · rw [State.afterTake_log]
        exact List.subset_append_left _ _
  | @invoke i q t hi hq =>
    obtain ⟨howns, hnew⟩ := h.holding hi hq
    refine h.worker_moved ⟨t, ⟨howns.callback, howns.dequeued, howns.unfreed⟩, by simp, ?_⟩ fun j hj hok => ?_
    · exact fun hmem => hnew (h.ledger.completedOf hmem)
    · exact hok.mono (fun _ _ _ ht => ht.callback) (List.Subset.refl _) (fun _ _ => hne hj)
        (fun _ _ => Iff.rfl) (fun _ _ => id) id
  | @callbackReturn i q t hi hq =>
    obtain ⟨howns, hstarted, hnew⟩ := h.running hi hq
    refine h.worker_moved ⟨t, ⟨howns.callback, howns.dequeued, howns.unfreed⟩, by simp⟩ fun j hj hok => ?_
    exact hok.mono (fun _ _ _ ht => ht.callback) (List.Subset.refl _) (fun _ _ => Iff.rfl)
      (fun _ _ => hne hj) (fun _ _ => id) id
  | @freeJob i q t hi hq =>
    obtain ⟨howns, hdone⟩ := h.called hi hq
    refine h.worker_moved trivial fun j hj hok => hok.mono (fun r t' _ ht => ?_) (List.Subset.refl _)
      (fun _ _ => Iff.rfl) (fun _ _ => Iff.rfl) (fun t' ht hmem => ?_) id
    · have hrq : r ≠ q := fun heq => by
        subst heq
        obtain rfl : t' = t := Option.some.inj (ht.callback.symm.trans hq)
        exact hj (h.owns_unique ht howns)
      simp only [callbackAt, Function.update_of_ne hrq]
      exact ht.callback
    · rcases List.mem_append.mp hmem with hmem | hmem
      · exact hmem
      · rw [List.mem_singleton] at hmem
        subst hmem
        exact absurd (h.ledger.dequeued_unique ht howns.dequeued) hj
  | destroyClose =>
    exact fun i => (h.worker i).mono (fun _ _ _ ht => ht.callback) (List.Subset.refl _)
      (fun _ _ => Iff.rfl) (fun _ _ => Iff.rfl) (fun _ _ => id) fun _ => rfl
  | broadcastNotEmpty => exact fun i => (h.worker i).wake.congr rfl rfl
  | spuriousWorker => exact h.worker_moved trivial fun _ _ hok => hok.congr rfl rfl
  | _ => exact fun i => (h.worker i).congr rfl rfl

/-- A dequeued job is freed, or its worker is responsible for its node. -/
theorem owner_step (h : Inv s jobs) (heffect : Effect s jobs label s' jobs') :
    ∀ t i, (t, i) ∈ s'.log.dequeued → t ∈ s'.log.freed ∨
      ∃ q, (s'.worker i).pjob? = some q ∧ callbackAt s'.pool.heap q = some t := by
  -- A worker moves from phase to phase with the same node, or between phases without a node.
  have hmoved : ∀ {i : Fin n} {phase : WorkerPhase}, phase.pjob? = (s.worker i).pjob? →
      ∀ j, (Function.update s.worker i phase j).pjob? = (s.worker j).pjob? := fun {i _} hphase j => by
    by_cases hj : j = i
    · subst hj
      rw [Function.update_self, hphase]
    · rw [Function.update_of_ne hj]
  have hsame : (∀ j, (s'.worker j).pjob? = (s.worker j).pjob?) → s'.pool = s.pool →
      s'.log.dequeued = s.log.dequeued → s'.log.freed = s.log.freed →
      ∀ t i, (t, i) ∈ s'.log.dequeued → t ∈ s'.log.freed ∨
        ∃ q, (s'.worker i).pjob? = some q ∧ callbackAt s'.pool.heap q = some t := by
    intro hworker hpool hdequeued hfreed t i hmem
    rw [hdequeued] at hmem
    rw [hworker, hpool, hfreed]
    exact h.owner t i hmem
  cases heffect with
  | @addAccept p q pool' _ _ _ hpush _ =>
    intro t i hmem
    rw [State.afterAccept_log] at hmem
    refine (h.owner t i hmem).imp (fun hfreed => by simpa using hfreed) fun ⟨r, hr, ht⟩ => ⟨r, ?_, ?_⟩
    · rw [State.afterAccept_worker]
      split <;> simp [hr]
    · rw [State.afterAccept_pool]
      exact hpush.callbackAt_eq ht
  | @workTake i wake q t rest pool' hi _ _ hjobs _ hpop _ =>
    subst hjobs
    have hnode : callbackAt s.pool.heap q = some t := h.queue.nodes (q, t) List.mem_cons_self
    have hticket : s.ticketAt q = [t] := State.ticketAt_eq hnode
    intro t' j hmem
    simp only [State.afterTake_log, hticket, List.map_singleton] at hmem ⊢
    rw [State.afterTake_worker, State.afterTake_pool, hpop.heap]
    rcases List.mem_append.mp hmem with hmem | hmem
    · refine (h.owner t' j hmem).imp_right fun ⟨r, hr, ht⟩ => ⟨r, ?_, ht⟩
      have hji : j ≠ i := fun heq => by
        subst heq
        rcases hi with hi | hi <;> simp [hi, WorkerPhase.pjob?] at hr
      rw [Function.update_of_ne hji, hr]
    · obtain ⟨rfl, rfl⟩ := Prod.mk.inj (List.mem_singleton.mp hmem)
      exact Or.inr ⟨q, by rw [Function.update_self]; rfl, hnode⟩
  | @freeJob i q t hi hq =>
    intro t' j hmem
    rcases h.owner t' j hmem with hfreed | ⟨r, hr, ht⟩
    · exact Or.inl (List.mem_append_left _ hfreed)
    · by_cases hji : j = i
      · subst hji
        rw [hi] at hr
        obtain rfl : q = r := Option.some.inj hr
        obtain rfl : t = t' := Option.some.inj (hq.symm.trans ht)
        exact Or.inl (List.mem_append_right _ (List.mem_singleton.mpr rfl))
      · refine Or.inr ⟨r, ?_, ?_⟩
        · change (Function.update s.worker i WorkerPhase.ready j).pjob? = some r
          rw [Function.update_of_ne hji, hr]
        · have hrq : r ≠ q := fun heq => by
            subst heq
            obtain ⟨u, hu⟩ := (h.worker i).owns (q := r) (by rw [hi]; rfl)
            obtain rfl : u = t' := Option.some.inj (hu.callback.symm.trans ht)
            exact hji (h.ledger.dequeued_unique hmem hu.dequeued)
          change callbackAt (Function.update s.pool.heap q none) r = some t'
          rw [callbackAt, Function.update_of_ne hrq]
          exact ht
  | workWait hi => exact hsame (hmoved (by rcases hi with hi | hi <;> rw [hi] <;> rfl)) rfl rfl rfl
  | workExit hi => exact hsame (hmoved (by rcases hi with hi | hi <;> rw [hi] <;> rfl)) rfl rfl rfl
  | invoke hi => exact hsame (hmoved (by rw [hi]; rfl)) rfl rfl rfl
  | callbackReturn hi => exact hsame (hmoved (by rw [hi]; rfl)) rfl rfl rfl
  | spuriousWorker hi => exact hsame (hmoved (by rw [hi]; rfl)) rfl rfl rfl
  | broadcastNotEmpty => exact hsame (fun j => WorkerPhase.wake_pjob? _) rfl rfl rfl
  | destroyClose => exact h.owner
  | _ => exact hsame (fun _ => rfl) rfl rfl rfl

/-- Every step keeps the invariant. -/
theorem step (h : Inv s jobs) (hstep : Step s label s') :
    ∃ jobs', Effect s jobs label s' jobs' ∧ Inv s' jobs' := by
  have hempty : ∀ d, s.destroyer d = .freeJobs → jobs = [] := fun d hd => h.closed (h.destroyer_at hd).1
  obtain ⟨jobs', heffect⟩ := Effect.of_step h.queue hempty hstep
  exact ⟨jobs', heffect, h.queue_step heffect, h.ledger_step heffect, h.made_step heffect,
    h.closed_step heffect, h.worker_step heffect, h.owner_step heffect, h.destroyer_step heffect⟩

end Inv

/-- The invariant holds in every reachable state. -/
theorem Reachable.inv {queueMaxNum : ℤ} (hmax : 0 ≤ queueMaxNum) {quota : P → ℕ}
    (h : Reachable queueMaxNum quota s) : ∃ jobs, Inv s jobs := by
  refine Transition.Reachable.invariant (P := fun s => ∃ jobs, Inv s jobs)
    (fun s hs => ⟨[], hs ▸ inv_new hmax quota⟩) (fun s label s' hs hstep => ?_) h
  obtain ⟨jobs, hinv⟩ := hs
  obtain ⟨jobs', -, hinv'⟩ := hinv.step hstep
  exact ⟨jobs', hinv'⟩

end CppProject.ThreadPool
