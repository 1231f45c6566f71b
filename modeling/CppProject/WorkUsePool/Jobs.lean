import CppProject.DBPool.Ownership
import CppProject.Lib.Simulation
import CppProject.ThreadPool.ExactlyOnce
import CppProject.WorkUsePool.System

/-!
# What the jobs do with the connections

Each of the two pools is a projection of the program, so what is known of their reachable states holds in
every state of the program. The invariant of the program itself says where a worker is in `workUsePool` and
what it holds there, and that a job has been recorded, as an insert or as a failure, from the moment the
worker gets to `RelConn`.
-/

namespace CppProject.ThreadPool

variable {n : ℕ} {P D : Type*} [DecidableEq P] [DecidableEq D] {s s' : State n P D} {jobs jobs' : Jobs P}
  {label : Label n P D}

/-- A worker stays in its callback until the callback returns. -/
theorem Effect.running_mono (h : Effect s jobs label s' jobs') {j : Fin n} (hlabel : label ≠ .callbackReturn j)
    {q : JobPtr} (hj : s.worker j = .running q) : s'.worker j = .running q := by
  have hmoved : ∀ {i : Fin n} {phase : WorkerPhase}, s.worker i ≠ .running q →
      Function.update s.worker i phase j = .running q := fun {i _} hi => by
    have hne : j ≠ i := fun heq => hi (heq ▸ hj)
    rw [Function.update_of_ne hne, hj]
  cases h with
  | addAccept =>
    rw [State.afterAccept_worker, hj]
    split <;> rfl
  | workWait hi => exact hmoved (by rcases hi with hi | hi <;> simp [hi])
  | workExit hi => exact hmoved (by rcases hi with hi | hi <;> simp [hi])
  | workTake hi =>
    rw [State.afterTake_worker]
    exact hmoved (by rcases hi with hi | hi <;> simp [hi])
  | invoke hi => exact hmoved (by simp [hi])
  | @callbackReturn i =>
    have hne : j ≠ i := fun heq => hlabel (heq ▸ rfl)
    change Function.update s.worker i _ j = _
    rw [Function.update_of_ne hne, hj]
  | freeJob hi => exact hmoved (by simp [hi])
  | broadcastNotEmpty =>
    change (s.worker j).wake = _
    rw [hj]
    rfl
  | spuriousWorker hi => exact hmoved (by simp [hi])
  | _ => exact hj

/-- Only the start and the return of a callback are logged as such. -/
theorem Effect.calls_eq (h : Effect s jobs label s' jobs') (hinvoke : ∀ i, label ≠ .invoke i)
    (hreturn : ∀ i, label ≠ .callbackReturn i) :
    s'.log.invoked = s.log.invoked ∧ s'.log.completed = s.log.completed := by
  cases h with
  | addAccept => simp
  | workTake => simp
  | invoke => exact absurd rfl (hinvoke _)
  | callbackReturn => exact absurd rfl (hreturn _)
  | _ => exact ⟨rfl, rfl⟩

omit [DecidableEq P] [DecidableEq D] in
/-- A job whose callback has started and not returned is the one that its worker is in. -/
theorem Inv.running_of_invoked (h : Inv s jobs) {t : Ticket P} {i : Fin n} (hinvoked : (t, i) ∈ s.log.invoked)
    (hopen : (t, i) ∉ s.log.completed) : ∃ q, s.worker i = .running q ∧ callbackAt s.pool.heap q = some t := by
  have hdequeued := h.ledger.invokedOf hinvoked
  rcases h.owner t i hdequeued with hfreed | ⟨q, hq, hcallback⟩
  · obtain ⟨j, hcompleted, hj⟩ := h.ledger.freed_dequeued hfreed
    rw [h.ledger.dequeued_unique hj hdequeued] at hcompleted
    exact absurd hcompleted hopen
  · cases hi : s.worker i with
    | holding p =>
      obtain rfl : p = q := Option.some.inj (by simpa [hi, WorkerPhase.pjob?] using hq)
      exact absurd hinvoked (h.holding hi hcallback).2
    | running p =>
      obtain rfl : p = q := Option.some.inj (by simpa [hi, WorkerPhase.pjob?] using hq)
      exact ⟨p, rfl, hcallback⟩
    | called p =>
      obtain rfl : p = q := Option.some.inj (by simpa [hi, WorkerPhase.pjob?] using hq)
      exact absurd (h.called hi hcallback).2 hopen
    | _ => simp [hi, WorkerPhase.pjob?] at hq

end CppProject.ThreadPool

namespace CppProject.WorkUsePool

open ThreadPool (Ticket callbackAt)
open Transition

variable {n : ℕ} {P : Type*} [DecidableEq P] {s s' : State n P} {label : Label n P} {maxConn queueMaxNum : ℤ}
  {quota : P → ℕ}

/-! ## The two pools -/

/-- A step leaves the thread pool alone or is one of it. -/
theorem Step.threads (hstep : Step s label s') :
    s'.threads = s.threads ∨ ∃ label', ThreadPool.Step s.threads label' s'.threads := by
  cases Effect.of_step hstep with
  | thread _ _ hthreads => exact Or.inr ⟨_, hthreads⟩
  | invoke hthreads => exact Or.inr ⟨_, hthreads⟩
  | callbackReturn _ hthreads => exact Or.inr ⟨_, hthreads⟩
  | _ => exact Or.inl rfl

/-- A step leaves the connection pool alone or is one of its clients. -/
theorem Step.conns (hstep : Step s label s') :
    s'.conns = s.conns ∨ ∃ label', DBPool.Step s.conns label' s'.conns := by
  cases Effect.of_step hstep with
  | wait _ hconns => exact Or.inr ⟨_, hconns⟩
  | failed _ hconns => exact Or.inr ⟨_, hconns⟩
  | got _ hconns => exact Or.inr ⟨_, hconns⟩
  | relConn _ hconns => exact Or.inr ⟨_, hconns⟩
  | spurious hconns => exact Or.inr ⟨_, hconns⟩
  | _ => exact Or.inl rfl

/-- The thread pool is a part of the program. -/
theorem threads_projection : Projection (Initial (n := n) maxConn queueMaxNum quota) Step
    (· = ThreadPool.State.new n Unit queueMaxNum quota) ThreadPool.Step State.threads where
  init := by
    rintro s ⟨conns, -, rfl⟩
    rfl
  step := fun _ _ _ hstep => hstep.threads

/-- The connection pool is a part of the program. -/
theorem conns_projection : Projection (Initial (n := n) maxConn queueMaxNum quota) Step (DBPool.Initial maxConn)
    DBPool.Step State.conns where
  init := by
    rintro s ⟨conns, hconns, rfl⟩
    exact hconns
  step := fun _ _ _ hstep => hstep.conns

/-- The thread pool of a reachable state is reachable on its own. -/
theorem Reachable.threads (h : Reachable maxConn queueMaxNum quota s) :
    ThreadPool.Reachable queueMaxNum quota s.threads :=
  threads_projection.reachable h

/-- The connection pool of a reachable state is reachable on its own. -/
theorem Reachable.conns (h : Reachable maxConn queueMaxNum quota s) : DBPool.Reachable maxConn s.conns :=
  conns_projection.reachable h

/-! ## Where the workers are -/

/-- What a worker holds at each place in `workUsePool`. -/
def Stage.ClientOk : Stage → DBPool.ClientPhase → Prop
  | .getDBConn, phase => phase = .idle ∨ phase = .waiting ∨ phase = .woken
  | .insertUser, phase => ∃ conn, phase = .holding (some conn)
  | .relConn, phase => ∃ pconn, phase = .holding pconn
  | .returned, phase => phase = .idle

/-- A worker within `workUsePool` is in its callback, and holds what the code says it does. -/
structure Fits (s : State n P) : Prop where
  running : ∀ i, s.stage i ≠ .returned → ∃ q, s.threads.worker i = .running q
  client : ∀ i, (s.stage i).ClientOk (s.conns.client i)

/-- Being woken does not move a client within `workUsePool`. -/
theorem Stage.ClientOk.woken {stage : Stage} (h : stage.ClientOk .waiting) : stage.ClientOk .woken := by
  cases stage with
  | getDBConn => exact Or.inr (Or.inr rfl)
  | insertUser => exact absurd h (by simp [Stage.ClientOk])
  | relConn => exact absurd h (by simp [Stage.ClientOk])
  | returned => exact absurd h (by simp [Stage.ClientOk])

namespace Fits

omit [DecidableEq P] in
/-- A step of one worker as a client, which may wake others. -/
theorem moved (h : Fits s) {i : Fin n} {stage : Stage} {conns : DBPool.State (Fin n)} (hi : s.stage i ≠ .returned)
    (hclient : stage.ClientOk (conns.client i)) (hothers : ∀ j, j ≠ i → conns.client j = s.conns.client j ∨
      s.conns.client j = .waiting ∧ conns.client j = .woken) : Fits ({ s with conns := conns }.setStage i stage) where
  running := fun j hj => by
    by_cases heq : j = i
    · exact heq ▸ h.running i hi
    · refine h.running j ?_
      rwa [State.setStage_stage, Function.update_of_ne heq] at hj
  client := fun j => by
    by_cases heq : j = i
    · subst heq
      simpa using hclient
    · rw [State.setStage_stage, Function.update_of_ne heq, State.setStage_conns]
      rcases hothers j heq with hsame | ⟨hwaiting, hwoken⟩
      · exact hsame ▸ h.client j
      · exact hwoken ▸ (hwaiting ▸ h.client j : (s.stage j).ClientOk .waiting).woken

omit [DecidableEq P] in
/-- A step that leaves the stages alone. -/
theorem stayed (h : Fits s) {i : Fin n} {conns : DBPool.State (Fin n)}
    (hclient : (s.stage i).ClientOk (conns.client i)) (hothers : ∀ j, j ≠ i → conns.client j = s.conns.client j) :
    Fits { s with conns := conns } where
  running := h.running
  client := fun j => by
    by_cases heq : j = i
    · exact heq ▸ hclient
    · exact (hothers j heq).symm ▸ h.client j

/-- A step of the thread pool. -/
theorem thread_step (h : Fits s) {jobs : ThreadPool.Jobs P} (hinv : ThreadPool.Inv s.threads jobs)
    {label : ThreadPool.Label n P Unit} {threads : ThreadPool.State n P Unit}
    (hstep : ThreadPool.Step s.threads label threads)
    (hreturned : ∀ i, label = .callbackReturn i → s.stage i = .returned) :
    Fits { s with threads := threads } where
  running := fun j hj => by
    obtain ⟨q, hq⟩ := h.running j hj
    obtain ⟨jobs', heffect, -⟩ := hinv.step hstep
    exact ⟨q, heffect.running_mono (fun heq => hj (hreturned j heq)) hq⟩
  client := h.client

/-- Every step keeps it so. -/
theorem step (h : Fits s) {jobs : ThreadPool.Jobs P} (hinv : ThreadPool.Inv s.threads jobs)
    (heffect : Effect s label s') : Fits s' := by
  have hget : ∀ {i attempt conns}, DBPool.Step s.conns (.getDBConn i attempt) conns →
      ∀ j, j ≠ i → conns.client j = s.conns.client j := fun {i attempt conns} hstep j hj => by
    obtain ⟨-, phase, hclient, -⟩ := client_of_getDBConn hstep
    rw [hclient, Function.update_of_ne hj]
  cases heffect with
  | thread _ hlabel hstep => exact h.thread_step hinv hstep fun i heq => absurd heq (hlabel i)
  | @invoke i threads hstep =>
    have hthreads := h.thread_step hinv hstep (by simp)
    have hworker : ∃ q, threads.worker i = .running q := by
      obtain ⟨jobs', heffect, -⟩ := hinv.step hstep
      cases heffect
      exact ⟨_, Function.update_self _ _ _⟩
    -- the worker was about to call its job, so it was not within `workUsePool`
    have hidle : s.conns.client i = .idle := by
      have hclient := h.client i
      by_cases hi : s.stage i = .returned
      · rwa [hi] at hclient
      · obtain ⟨q, hq⟩ := h.running i hi
        obtain ⟨jobs', heffect, -⟩ := hinv.step hstep
        cases heffect with
        | invoke hholding => exact absurd (hq.symm.trans hholding) (by simp)
    refine ⟨fun j hj => ?_, fun j => ?_⟩
    · by_cases heq : j = i
      · exact heq ▸ hworker
      · refine hthreads.running j ?_
        rwa [State.setStage_stage, Function.update_of_ne heq] at hj
    · by_cases heq : j = i
      · subst heq
        rw [State.setStage_stage, Function.update_self]
        exact Or.inl hidle
      · simpa [Function.update_of_ne heq] using h.client j
  | callbackReturn hstage hstep =>
    refine h.thread_step hinv hstep fun j heq => ?_
    obtain rfl : _ = j := by injection heq
    exact hstage
  | wait hstage hstep hclient =>
    refine h.stayed ?_ (hget hstep)
    rw [hstage, hclient]
    exact Or.inr (Or.inl rfl)
  | failed hstage hstep hclient =>
    have hmoved : Fits (State.setStage { s with conns := _ } _ .relConn) :=
      h.moved (by simp [hstage]) ⟨none, hclient⟩ fun j hj => Or.inl (hget hstep j hj)
    exact ⟨hmoved.running, hmoved.client⟩
  | got hstage hstep hclient =>
    exact h.moved (by simp [hstage]) ⟨_, hclient⟩ fun j hj => Or.inl (hget hstep j hj)
  | insertUser hstage hclient =>
    have hmoved : Fits (State.setStage { s with conns := s.conns } _ .relConn) :=
      h.moved (by simp [hstage]) ⟨_, hclient⟩ fun j _ => Or.inl rfl
    exact ⟨hmoved.running, hmoved.client⟩
  | @relConn i wake conns hstage hstep =>
    cases DBPool.Effect.of_step hstep with
    | released hc hvalid =>
      refine h.moved (by simp [hstage]) (by simp [Stage.ClientOk]) fun j hj => ?_
      simp only [DBPool.State.setClient_client, Function.update_of_ne hj, DBPool.State.wakeClients_client]
      by_cases hwake : wake j = true
      · exact Or.inr ⟨hvalid.1 j hwake, if_pos hwake⟩
      · exact Or.inl (if_neg hwake)
  | @spurious i conns hstep =>
    cases DBPool.Effect.of_step hstep with
    | spurious hwaiting =>
      refine h.stayed (i := i) ?_ fun j hj => by simp [Function.update_of_ne hj]
      rw [DBPool.State.setClient_client, Function.update_self]
      exact (hwaiting ▸ h.client i : (s.stage i).ClientOk .waiting).woken

end Fits

/-! ## What is recorded of the jobs -/

/-- A worker is not at `RelConn` yet. -/
def Stage.Early : Stage → Prop
  | .getDBConn => True
  | .insertUser => True
  | _ => False

/-- The jobs of which an insert or a failure is recorded. -/
def State.recorded (s : State n P) : List (Ticket P) := s.inserted.map Prod.fst ++ s.failed

/-- A job that has been called is recorded once its worker is at `RelConn`, and only once. -/
structure Recorded (s : State n P) : Prop where
  nodup : s.recorded.Nodup
  invoked : ∀ t ∈ s.recorded, t ∈ s.threads.log.invoked.map Prod.fst
  iff : ∀ t i, (t, i) ∈ s.threads.log.invoked →
    (t ∈ s.recorded ↔ (t, i) ∈ s.threads.log.completed ∨ ¬ (s.stage i).Early)

namespace Recorded

variable {jobs : ThreadPool.Jobs P}

omit [DecidableEq P] in
/-- A worker gets to `RelConn` with its job unrecorded. -/
theorem record (h : Recorded s) (hinv : ThreadPool.Inv s.threads jobs) {i : Fin n} {q : ThreadPool.JobPtr}
    (hrunning : s.threads.worker i = .running q) (hstage : (s.stage i).Early) (hthreads : s'.threads = s.threads)
    (hmoved : s'.stage = Function.update s.stage i .relConn) (hrecorded : ∀ t, s.ticket i = [t] →
      s'.recorded.Perm (t :: s.recorded)) : Recorded s' := by
  obtain ⟨t, howns⟩ := (hinv.worker_at hrunning : ThreadPool.WorkerOk s.threads i (.running q)).owns rfl
  obtain ⟨-, hinvoked, hopen⟩ := hinv.running hrunning howns.callback
  have hperm := hrecorded t (by rw [State.ticket, hrunning]; exact ThreadPool.State.ticketAt_eq howns.callback)
  have hnew : t ∉ s.recorded := fun hmem => ((h.iff t i hinvoked).mp hmem).elim hopen fun hlate => hlate hstage
  refine ⟨hperm.nodup_iff.mpr (List.nodup_cons.mpr ⟨hnew, h.nodup⟩), fun t' ht' => ?_, fun t' j ht' => ?_⟩
  · rw [hthreads]
    rcases List.mem_cons.mp (hperm.mem_iff.mp ht') with rfl | hmem
    · exact List.mem_map_of_mem hinvoked
    · exact h.invoked t' hmem
  · rw [hthreads] at ht'
    rw [hperm.mem_iff, List.mem_cons, h.iff t' j ht', hthreads, hmoved]
    by_cases heq : t' = t
    · -- the job of this worker, which belongs to no other
      obtain rfl : j = i := hinv.ledger.dequeued_unique (hinv.ledger.invokedOf ht') (heq ▸ howns.dequeued)
      rw [Function.update_self]
      exact iff_of_true (Or.inl heq) (Or.inr id)
    · rw [or_iff_right heq]
      by_cases hj : j = i
      · -- the worker has no other job open
        subst hj
        refine iff_of_true (Or.inl ?_) (Or.inl ?_) <;>
        · by_contra hcompleted
          obtain ⟨q', hq', hcallback⟩ := hinv.running_of_invoked ht' hcompleted
          obtain rfl : q' = q := by simpa [hrunning] using hq'.symm
          exact heq (Option.some.inj (hcallback.symm.trans howns.callback))
      · rw [Function.update_of_ne hj]

omit [DecidableEq P] in
/-- A step that neither records anything nor moves a worker past its insert, or from its return. -/
theorem congr (h : Recorded s) (hrecorded : s'.recorded = s.recorded)
    (hstage : ∀ i, (s'.stage i).Early ↔ (s.stage i).Early)
    (hthreads : s'.threads = s.threads) : Recorded s' where
  nodup := hrecorded ▸ h.nodup
  invoked := fun t ht => by
    rw [hthreads]
    exact h.invoked t (hrecorded ▸ ht)
  iff := fun t i ht => by
    rw [hrecorded, hthreads, hstage i]
    exact h.iff t i (hthreads ▸ ht)

/-- Every step keeps the record. -/
theorem step (h : Recorded s) (hinv : ThreadPool.Inv s.threads jobs) (hfits : Fits s) (heffect : Effect s label s') :
    Recorded s' := by
  cases heffect with
  | thread hinvoke hreturn hstep =>
    obtain ⟨jobs', heffect, -⟩ := hinv.step hstep
    obtain ⟨hinvoked, hcompleted⟩ := heffect.calls_eq hinvoke hreturn
    refine ⟨h.nodup, fun t ht => ?_, fun t i ht => ?_⟩
    · exact hinvoked.symm ▸ h.invoked t ht
    · rw [hcompleted]
      exact h.iff t i (hinvoked ▸ ht)
  | @invoke i threads hstep =>
    obtain ⟨jobs', heffect, -⟩ := hinv.step hstep
    cases heffect with
    | @invoke _ q t hholding hcallback =>
      obtain ⟨howns, hnew⟩ := hinv.holding hholding hcallback
      have hfresh : t ∉ s.recorded := fun hmem => by
        obtain ⟨⟨_, j⟩, hinvoked, rfl⟩ := List.mem_map.mp (h.invoked t hmem)
        obtain rfl := hinv.ledger.dequeued_unique (hinv.ledger.invokedOf hinvoked) howns.dequeued
        exact hnew hinvoked
      refine ⟨h.nodup, fun t' ht' => ?_, fun t' j ht' => ?_⟩
      · exact List.map_subset _ (List.subset_append_left _ _) (h.invoked t' ht')
      · rw [State.setStage_stage, State.setStage_threads]
        rcases List.mem_append.mp ht' with hinvoked | hmem
        · by_cases hj : j = i
          · -- the worker holds a job it has not called, so it has returned from all others
            subst hj
            have hcompleted : (t', j) ∈ s.threads.log.completed := by
              by_contra hopen
              obtain ⟨q', hq', -⟩ := hinv.running_of_invoked hinvoked hopen
              exact absurd (hq'.symm.trans hholding) (by simp)
            exact iff_of_true ((h.iff t' j hinvoked).mpr (Or.inl hcompleted)) (Or.inl hcompleted)
          · rw [Function.update_of_ne hj]
            exact h.iff t' j hinvoked
        · obtain ⟨rfl, rfl⟩ := Prod.mk.inj (List.mem_singleton.mp hmem)
          rw [Function.update_self]
          refine iff_of_false hfresh (not_or.mpr ⟨fun hcompleted => ?_, not_not.mpr trivial⟩)
          exact hnew (hinv.ledger.completedOf hcompleted)
  | @callbackReturn i threads hstage hstep =>
    obtain ⟨jobs', heffect, -⟩ := hinv.step hstep
    cases heffect with
    | @callbackReturn _ q t hrunning hcallback =>
      refine ⟨h.nodup, h.invoked, fun t' j ht' => (h.iff t' j ht').trans ?_⟩
      change _ ↔ (t', j) ∈ s.threads.log.completed ++ [(t, i)] ∨ _
      rw [List.mem_append, List.mem_singleton]
      refine ⟨Or.imp_left Or.inl, fun hlate => ?_⟩
      rcases hlate with (hcompleted | heq) | hlate
      · exact Or.inl hcompleted
      · obtain ⟨-, rfl⟩ := Prod.mk.inj heq
        exact Or.inr (by simp [hstage, Stage.Early])
      · exact Or.inr hlate
  | wait hstage hstep hclient => exact h.congr rfl (fun _ => Iff.rfl) rfl
  | @failed i attempt conns hstage hstep hclient =>
    obtain ⟨q, hq⟩ := hfits.running i (by simp [hstage])
    refine h.record hinv hq (by rw [hstage]; trivial) rfl rfl fun t ht => ?_
    simp only [State.recorded, State.setStage_inserted, ht]
    exact (List.perm_append_singleton t _).append_left _ |>.trans List.perm_middle
  | @got i attempt conns conn hstage hstep hclient =>
    refine h.congr rfl (fun j => ?_) rfl
    by_cases hj : j = i
    · subst hj
      simp [hstage, Stage.Early]
    · simp [Function.update_of_ne hj]
  | @insertUser i conn hstage hclient =>
    obtain ⟨q, hq⟩ := hfits.running i (by simp [hstage])
    refine h.record hinv hq (by rw [hstage]; trivial) rfl rfl fun t ht => ?_
    simp only [State.recorded, State.setStage_failed, ht, List.map_append, List.map_cons, List.map_nil]
    rw [List.append_assoc]
    exact List.perm_middle
  | @relConn i wake conns hstage hstep =>
    refine h.congr rfl (fun j => ?_) rfl
    by_cases hj : j = i
    · subst hj
      simp [hstage, Stage.Early]
    · simp [Function.update_of_ne hj]
  | spurious => exact h.congr rfl (fun _ => Iff.rfl) rfl

end Recorded

/-! ## Every state of the program -/

omit [DecidableEq P] in
/-- After `Init` no worker is within `workUsePool`. -/
theorem fits_initial (h : Initial maxConn queueMaxNum quota s) : Fits s := by
  obtain ⟨conns, ⟨attempt, pool, -, rfl⟩, rfl⟩ := h
  exact ⟨fun i hi => absurd rfl hi, fun i => rfl⟩

omit [DecidableEq P] in
/-- After `Init` no job is recorded. -/
theorem recorded_initial (h : Initial maxConn queueMaxNum quota s) : Recorded s := by
  obtain ⟨conns, -, rfl⟩ := h
  exact ⟨List.nodup_nil, by simp [State.recorded], by simp [ThreadPool.State.new]⟩

/-- Both hold in every reachable state. -/
theorem Reachable.fits_recorded (hmax : 0 ≤ queueMaxNum) (h : Reachable maxConn queueMaxNum quota s) :
    Fits s ∧ Recorded s := by
  refine Transition.Reachable.invariant_of (Q := fun s => ∃ jobs, ThreadPool.Inv s.threads jobs)
    (P := fun s => Fits s ∧ Recorded s) (fun s hs => (Reachable.threads hs).inv hmax)
    (fun s hs => ⟨fits_initial hs, recorded_initial hs⟩) ?_ h
  rintro s label s' ⟨jobs, hinv⟩ ⟨hfits, hrecorded⟩ hstep
  exact ⟨hfits.step hinv (.of_step hstep), hrecorded.step hinv hfits (.of_step hstep)⟩

/-- A job inserts once, or gets no connection, before its callback returns; no two workers hold one connection, and
between jobs a worker holds none. -/
structure Served (s : State n P) : Prop where
  once : s.recorded.Nodup
  called : ∀ t ∈ s.recorded, t ∈ s.threads.log.invoked.map Prod.fst
  beforeReturn : ∀ t ∈ s.threads.log.completed.map Prod.fst, t ∈ s.recorded
  alone : ∀ i j conn, s.conns.client i = .holding (some conn) → s.conns.client j = .holding (some conn) → i = j
  between : ∀ i, (∀ q, s.threads.worker i ≠ .running q) → s.conns.client i = .idle

omit [DecidableEq P] in
/-- A worker that is not in its callback holds nothing. -/
theorem Fits.idle (h : Fits s) {i : Fin n} (hi : ∀ q, s.threads.worker i ≠ .running q) : s.conns.client i = .idle := by
  have hstage : s.stage i = .returned := by
    by_contra hne
    obtain ⟨q, hq⟩ := h.running i hne
    exact hi q hq
  have hclient := h.client i
  rwa [hstage] at hclient

omit [DecidableEq P] in
/-- A job whose callback has returned is recorded. -/
theorem Recorded.completed (h : Recorded s) {jobs : ThreadPool.Jobs P} (hinv : ThreadPool.Inv s.threads jobs)
    {t : Ticket P} (ht : t ∈ s.threads.log.completed.map Prod.fst) : t ∈ s.recorded := by
  obtain ⟨⟨_, i⟩, hcompleted, rfl⟩ := List.mem_map.mp ht
  exact (h.iff _ i (hinv.ledger.completedOf hcompleted)).mpr (Or.inl hcompleted)

/-- Once all workers have exited, what is recorded is what was accepted. -/
theorem Recorded.perm_enqueued (h : Recorded s) {jobs : ThreadPool.Jobs P} (hinv : ThreadPool.Inv s.threads jobs)
    (hall : ThreadPool.AllExecuted s.threads) : s.recorded.Perm s.threads.log.enqueued := by
  refine (List.perm_ext_iff_of_nodup h.nodup hinv.ledger.enqueued_nodup).mpr fun t => ⟨fun ht => ?_, fun ht => ?_⟩
  · obtain ⟨⟨_, i⟩, hinvoked, rfl⟩ := List.mem_map.mp (h.invoked t ht)
    rw [hinv.ledger.fifo]
    exact List.mem_append_left _ (List.mem_map_of_mem (hinv.ledger.invokedOf hinvoked))
  · exact h.completed hinv (List.count_pos_iff.mp (by rw [(hall t ht).2.1]; exact one_pos))

/-- When `ThreadPool_Destroy` has returned, the accepted jobs are those that have inserted and those that got no
connection, each once, and every worker has released what it got. -/
theorem Reachable.finished (hmax : 1 ≤ queueMaxNum) (h : Reachable maxConn queueMaxNum quota s)
    (hfinished : (s.threads.destroyer ()).Finished) :
    s.recorded.Perm s.threads.log.enqueued ∧ ∀ i, s.conns.client i = .idle := by
  obtain ⟨hfits, hrecorded⟩ := h.fits_recorded (by omega)
  obtain ⟨jobs, hinv, hsole⟩ := h.threads.inv_soleCaller (by omega)
  obtain ⟨hclosed, hexited⟩ := hinv.destroyer_at (hfinished.resolve_right hsole.notRefused)
  exact ⟨hrecorded.perm_enqueued hinv (hinv.allExecuted hclosed hexited), fun i => hfits.idle (by simp [hexited i])⟩

/-- In every state of every run jobs use the connections one at a time, and each is served once before it returns; when
`ThreadPool_Destroy` has returned all accepted jobs have been, and every connection has been released. -/
theorem served_of_reachable (hmax : 1 ≤ queueMaxNum) (h : Reachable maxConn queueMaxNum quota s) :
    Served s ∧ ((s.threads.destroyer ()).Finished →
      s.recorded.Perm s.threads.log.enqueued ∧ ∀ i, s.conns.client i = .idle) := by
  obtain ⟨hfits, hrecorded⟩ := h.fits_recorded (by omega)
  obtain ⟨jobs, hinv⟩ := h.threads.inv (by omega)
  obtain ⟨place, hrep⟩ := h.conns.represents
  refine ⟨⟨hrecorded.nodup, hrecorded.invoked, fun t => hrecorded.completed hinv, fun i j conn hi hj => ?_,
    fun i => hfits.idle⟩, h.finished hmax⟩
  exact hrep.held.unique (DBPool.ClientPhase.conn?_eq_some.mpr hi) (DBPool.ClientPhase.conn?_eq_some.mpr hj)

/-- A run of two jobs on two workers, of which the second gets no connection, up to the return of
`ThreadPool_Destroy`. -/
theorem served_of_reachable_run : ∃ s : State 2 Unit, s.inserted = [(((), 0), 8)] ∧ s.failed = [((), 1)] ∧
    (s.threads.destroyer ()).Finished ∧ Served s ∧ ((s.threads.destroyer ()).Finished →
      s.recorded.Perm s.threads.log.enqueued ∧ ∀ i, s.conns.client i = .idle) := by
  let start : State 2 Unit := ⟨ThreadPool.State.new 2 Unit 2 fun _ => 2, ⟨⟨1, 2, [some 8]⟩, fun _ => .idle, [⟨8, 0⟩]⟩,
    fun _ => .returned, [], []⟩
  let labels : List (Label 2 Unit) :=
    [.thread (.addJob () (some 8)), .thread (.addJob () (some 16)), .thread (.work 0 fun _ => false),
      .thread (.work 1 fun _ => false), .thread (.invoke 0), .thread (.invoke 1), .getDBConn 0 ⟨16, 0⟩,
      .getDBConn 1 ⟨16, -1⟩, .insertUser 0, .relConn 1 (fun _ => false), .relConn 0 (fun _ => false),
      .thread (.callbackReturn 0), .thread (.callbackReturn 1), .thread (.freeJob 0), .thread (.freeJob 1)] ++
    List.replicate 3 (.thread (.destroy ())) ++
    [.thread (.work 0 fun _ => false), .thread (.work 1 fun _ => false)] ++ List.replicate 10 (.thread (.destroy ()))
  have hinit : Initial 2 2 (fun _ => 2) start := ⟨_, ⟨⟨8, 0⟩, _, rfl, rfl⟩, rfl⟩
  have hrun : (Transition.replay (fun s label => s.check label) start labels).map
      (fun s => (s.inserted, s.failed, s.threads.destroyer ())) =
        some ([(((), 0), 8)], [((), 1)], .returned) := by decide
  obtain ⟨s, hrun, hs⟩ := Option.map_eq_some_iff.mp hrun
  obtain ⟨hinserted, hs⟩ := Prod.mk.inj hs
  obtain ⟨hfailed, hreturned⟩ := Prod.mk.inj hs
  have hreach : Reachable 2 2 (fun _ => 2) s :=
    Transition.Reachable.replay (fun s _ _ => s.step_of_check) (.init hinit) hrun
  exact ⟨s, hinserted, hfailed, Or.inl hreturned, served_of_reachable (by decide) hreach⟩

end CppProject.WorkUsePool
