import CppProject.DBPool.Destructor
import CppProject.ThreadPool.Termination
import CppProject.WorkUsePool.Jobs

/-!
# The program comes to its end

A worker in `workUsePool` holds up the thread pool until it gets a connection, and gets one from a worker
that releases its own. Nothing is lost on either side, so the two pools together cannot deadlock, however
small the connection pool is; and since a release pays for the clients it wakes, they cannot run forever.
In the end every job has been executed, and `~DBPool` closes every connection there is.
-/

namespace CppProject.WorkUsePool

open Transition

variable {n : ℕ} {P : Type*}

/-- The steps of a worker up to the end of `workUsePool`, and the clients it wakes. -/
def Stage.rank (n : ℕ) : Stage → DBPool.ClientPhase → ℕ
  | .getDBConn, .waiting => n + 3
  | .getDBConn, _ => n + 4
  | .insertUser, _ => n + 2
  | .relConn, _ => n + 1
  | .returned, _ => 0

/-- The rank of a state, in which a call of `workUsePool` weighs less than a step of the thread pool. -/
def State.rank [Fintype P] (s : State n P) : ℕ :=
  (n + 5) * s.threads.rank + ∑ i, (s.stage i).rank n (s.conns.client i)

/-- Before `RelConn`, which may wake all others. -/
@[simp] theorem Stage.rank_relConn (phase : DBPool.ClientPhase) : Stage.relConn.rank n phase = n + 1 := rfl

/-- A worker that has returned has nothing left. -/
@[simp] theorem Stage.rank_returned (phase : DBPool.ClientPhase) : Stage.returned.rank n phase = 0 := rfl

/-- A client that is woken has one more look at the free list. -/
theorem Stage.rank_woken_le (stage : Stage) : stage.rank n .woken ≤ stage.rank n .waiting + 1 := by
  cases stage <;> simp [Stage.rank]

/-- Entering `workUsePool` weighs less than the call of the job. -/
theorem Stage.rank_lt (stage : Stage) (phase : DBPool.ClientPhase) : stage.rank n phase < n + 5 := by
  cases stage <;> cases phase <;> simp [Stage.rank]

variable [DecidableEq P] {s s' : State n P} {label : Label n P} {maxConn queueMaxNum : ℤ} {quota : P → ℕ}

instance : DecidablePred (Label.IsOwn (n := n) (P := P))
  | .thread label => inferInstanceAs (Decidable label.IsOwn)
  | .getDBConn _ _ => inferInstanceAs (Decidable True)
  | .insertUser _ => inferInstanceAs (Decidable True)
  | .relConn _ _ => inferInstanceAs (Decidable True)
  | .spurious _ => inferInstanceAs (Decidable False)

section Rank

variable [Fintype P]

omit [DecidableEq P] in
/-- A step of one worker within `workUsePool` that wakes nobody. -/
theorem State.rank_moved_lt {i : Fin n} (hthreads : s'.threads = s.threads)
    (hstage : ∀ j, j ≠ i → s'.stage j = s.stage j) (hclient : ∀ j, j ≠ i → s'.conns.client j = s.conns.client j)
    (hlt : (s'.stage i).rank n (s'.conns.client i) < (s.stage i).rank n (s.conns.client i)) : s'.rank < s.rank := by
  have hsum := sum_le_except (f := fun j => (s.stage j).rank n (s.conns.client j))
    (g := fun j => (s'.stage j).rank n (s'.conns.client j)) i 0
    fun j hj => by rw [hstage j hj, hclient j hj, add_zero]
  rw [zero_mul] at hsum
  simp only [State.rank, hthreads]
  omega

/-- Every own step lowers the rank. -/
theorem Effect.rank_lt {jobs : ThreadPool.Jobs P} (heffect : Effect s label s') (hinv : ThreadPool.Inv s.threads jobs)
    (hbusy : ThreadPool.Busy s.threads) (hown : label.IsOwn) : s'.rank < s.rank := by
  have hdrop : ∀ {label threads}, ThreadPool.Step s.threads label threads → label.IsOwn →
      (n + 5) * threads.rank + (n + 5) ≤ (n + 5) * s.threads.rank := fun {label threads} hstep hown => by
    obtain ⟨jobs', heffect, -⟩ := hinv.step hstep
    exact Nat.mul_le_mul_left (n + 5) (heffect.rank_lt hinv.queue hbusy hown)
  have hget : ∀ {i attempt conns}, DBPool.Step s.conns (.getDBConn i attempt) conns → s.stage i = .getDBConn →
      (s.stage i).rank n (s.conns.client i) = n + 4 ∧ ∀ j, j ≠ i → conns.client j = s.conns.client j :=
    fun {i attempt conns} hstep hstage => by
      obtain ⟨hphase, phase, hclient, -⟩ := client_of_getDBConn hstep
      refine ⟨?_, fun j hj => by rw [hclient, Function.update_of_ne hj]⟩
      rcases hphase with hphase | hphase <;> rw [hstage, hphase] <;> rfl
  cases heffect with
  | thread _ _ hstep =>
    have hlt := hdrop hstep hown
    simp only [State.rank]
    omega
  | @invoke i threads hstep =>
    have hlt := hdrop hstep trivial
    have hsum := sum_le_except (f := fun j => (s.stage j).rank n (s.conns.client j))
      (g := fun j => (Function.update s.stage i .getDBConn j).rank n (s.conns.client j)) i 0
      fun j hj => by rw [Function.update_of_ne hj, add_zero]
    have hnew := Stage.rank_lt (n := n) .getDBConn (s.conns.client i)
    simp only [Function.update_self, zero_mul] at hsum
    simp only [State.rank, State.setStage_threads, State.setStage_conns, State.setStage_stage]
    omega
  | callbackReturn _ hstep =>
    have hlt := hdrop hstep trivial
    simp only [State.rank]
    omega
  | @wait i attempt conns hstage hstep hclient =>
    obtain ⟨hrank, hothers⟩ := hget hstep hstage
    refine State.rank_moved_lt (i := i) rfl (fun _ _ => rfl) hothers ?_
    rw [hrank, hstage, hclient]
    exact Nat.lt_succ_self _
  | @failed i attempt conns hstage hstep hclient =>
    obtain ⟨hrank, hothers⟩ := hget hstep hstage
    refine State.rank_moved_lt (i := i) rfl (fun j hj => Function.update_of_ne hj _ _) hothers ?_
    rw [hrank, State.setStage_stage, Function.update_self]
    exact Nat.add_lt_add_left (by decide) n
  | @got i attempt conns conn hstage hstep hclient =>
    obtain ⟨hrank, hothers⟩ := hget hstep hstage
    refine State.rank_moved_lt (i := i) rfl (fun j hj => Function.update_of_ne hj _ _) hothers ?_
    rw [hrank, State.setStage_stage, Function.update_self]
    exact Nat.add_lt_add_left (by decide) n
  | @insertUser i conn hstage hclient =>
    refine State.rank_moved_lt (i := i) rfl (fun j hj => Function.update_of_ne hj _ _) (fun _ _ => rfl) ?_
    rw [hstage, State.setStage_stage, Function.update_self]
    exact Nat.lt_succ_self _
  | @relConn i wake conns hstage hstep =>
    -- the release is paid for by what it wakes, one each
    cases DBPool.Effect.of_step hstep with
    | @released _ _ pconn hc hvalid =>
      have hsum := sum_le_except (f := fun j => (s.stage j).rank n (s.conns.client j))
        (g := fun j => (Function.update s.stage i .returned j).rank n
          ((({ s.conns with pool := DBPool.relConn s.conns.pool pconn }.wakeClients wake).setClient i .idle).client
            j)) i 1
        fun j hj => by
          simp only [Function.update_of_ne hj, DBPool.State.setClient_client, DBPool.State.wakeClients_client]
          by_cases hwake : wake j = true
          · rw [if_pos hwake, hvalid.1 j hwake]
            exact Stage.rank_woken_le _
          · rw [if_neg hwake]
            exact Nat.le_succ _
      simp only [Function.update_self, hstage, Stage.rank_relConn, Stage.rank_returned, one_mul,
        Fintype.card_fin] at hsum
      simp only [State.rank, State.setStage_threads, State.setStage_conns, State.setStage_stage]
      omega
  | spurious => exact hown.elim

/-- A spurious wakeup weighs as much as a step of the thread pool at most. -/
theorem Effect.rank_le {jobs : ThreadPool.Jobs P} (heffect : Effect s label s') (hinv : ThreadPool.Inv s.threads jobs)
    (hspurious : ¬ label.IsOwn) : s'.rank ≤ s.rank + (n + 5) := by
  cases heffect with
  | @thread label threads _ _ hstep =>
    obtain ⟨jobs', heffect, -⟩ := hinv.step hstep
    have hle := Nat.mul_le_mul_left (n + 5) (heffect.rank_le_succ hspurious)
    rw [Nat.mul_succ] at hle
    simp only [State.rank]
    omega
  | @spurious i conns hstep =>
    cases DBPool.Effect.of_step hstep with
    | spurious hwaiting =>
      have hsum := sum_le_except (f := fun j => (s.stage j).rank n (s.conns.client j))
        (g := fun j => (s.stage j).rank n ((s.conns.setClient i .woken).client j)) i 0
        fun j hj => by rw [DBPool.State.setClient_client, Function.update_of_ne hj, add_zero]
      have hone := Stage.rank_woken_le (n := n) (s.stage i)
      simp only [DBPool.State.setClient_client, Function.update_self, hwaiting, zero_mul] at hsum
      simp only [State.rank, DBPool.State.setClient_client]
      omega
  | _ => exact absurd trivial hspurious

/-- The program is ranked, as the thread pool is. -/
theorem ranked : Ranked (Step (n := n) (P := P)) Label.IsOwn
    (fun s => (∃ jobs, ThreadPool.Inv s.threads jobs) ∧ ThreadPool.Busy s.threads ∧ Fits s) State.rank (n + 5) where
  keeps := by
    rintro s label s' ⟨⟨jobs, hinv⟩, hbusy, hfits⟩ hstep
    have hthreads : (∃ jobs, ThreadPool.Inv s'.threads jobs) ∧ ThreadPool.Busy s'.threads := by
      have hmoved : ∀ {label threads}, ThreadPool.Step s.threads label threads →
          (∃ jobs, ThreadPool.Inv threads jobs) ∧ ThreadPool.Busy threads := fun hstep => by
        obtain ⟨jobs', heffect, hinv'⟩ := hinv.step hstep
        exact ⟨⟨jobs', hinv'⟩, hbusy.step heffect⟩
      rcases hstep.threads with hsame | ⟨_, hstep⟩
      · exact hsame ▸ ⟨⟨jobs, hinv⟩, hbusy⟩
      · exact hmoved hstep
    exact ⟨hthreads.1, hthreads.2, hfits.step hinv (.of_step hstep)⟩
  drops := by
    rintro s label s' ⟨⟨jobs, hinv⟩, hbusy, -⟩ hstep hown
    exact (Effect.of_step hstep).rank_lt hinv hbusy hown
  rises := by
    rintro s label s' ⟨⟨jobs, hinv⟩, -, -⟩ hstep hspurious
    exact (Effect.of_step hstep).rank_le hinv hspurious

end Rank

/-! ## No deadlock -/

/-- No thread can take a step by itself. -/
def Stuck (s : State n P) : Prop := ∀ label s', Step s label s' → ¬ label.IsOwn

/-- Nothing is left to do, all connections have been released, and `~DBPool` closes each of them once. -/
structure Done (quota : P → ℕ) (s : State n P) : Prop where
  threads : ThreadPool.Done quota s.threads
  recorded : s.recorded.Perm s.threads.log.enqueued
  released : ∀ i, s.conns.client i = .idle
  closed : s.conns.pool.destruct.Perm (DBPool.openConns s.conns.attempts)

namespace Stuck

/-- In a stuck state no thread can take a step of its own. -/
theorem next_eq_none (hstuck : Stuck s) (label : Label n P) (hown : label.IsOwn) (hvalid : label.Valid s) :
    s.next label = none :=
  Option.eq_none_iff_forall_ne_some.mpr fun s' hnext => hstuck label s' ⟨hvalid, hnext⟩ hown

/-- `new` finds an address for another connection. -/
theorem exists_fresh (conns : List DBPool.ConnPtr) : ∃ conn, conn ∉ conns := by
  obtain ⟨conn, hconn⟩ := Infinite.exists_notMem_finset conns.toFinset
  exact ⟨conn, fun hmem => hconn (List.mem_toFinset.mpr hmem)⟩

/-- A worker that can look at the free list takes a step. -/
theorem not_looking (hstuck : Stuck s) {i : Fin n} (hstage : s.stage i = .getDBConn) :
    s.conns.client i ≠ .idle ∧ s.conns.client i ≠ .woken := by
  obtain ⟨conn, hfresh⟩ := exists_fresh (DBPool.openConns s.conns.attempts)
  have hnext := hstuck.next_eq_none (.getDBConn i ⟨conn, 0⟩) trivial hfresh
  rw [State.next, State.getDBConn, if_pos hstage, Option.map_eq_none_iff, DBPool.State.next] at hnext
  refine ⟨fun hidle => ?_, fun hwoken => ?_⟩
  · simp [hidle] at hnext
  · simp [hwoken] at hnext

/-- A worker with a pointer takes a step. -/
theorem not_holding (hstuck : Stuck s) (hfits : Fits s) (i : Fin n) (pconn : Option DBPool.ConnPtr) :
    s.conns.client i ≠ .holding pconn := fun hholding => by
  have hclient := hfits.client i
  cases hstage : s.stage i with
  | getDBConn => simp [hstage, Stage.ClientOk, hholding] at hclient
  | returned => simp [hstage, Stage.ClientOk, hholding] at hclient
  | insertUser =>
    obtain ⟨conn, hconn⟩ : ∃ conn, s.conns.client i = .holding (some conn) := by
      simpa only [hstage, Stage.ClientOk] using hclient
    have hnext := hstuck.next_eq_none (.insertUser i) trivial trivial
    simp [State.next, State.insertUser, hstage, hconn] at hnext
  | relConn =>
    have hnext := hstuck.next_eq_none (.relConn i fun c => decide (s.conns.client c = .waiting)) trivial
      ⟨fun c hc => of_decide_eq_true hc, fun c hc => ⟨c, decide_eq_true hc⟩⟩
    simp [State.next, State.relConn, hstage, DBPool.State.next, hholding] at hnext

/-- So no worker is in `workUsePool`. -/
theorem returned (hstuck : Stuck s) (hfits : Fits s) (hconns : DBPool.Reachable maxConn s.conns) (i : Fin n) :
    s.stage i = .returned := by
  have hwoken : ∀ i, s.conns.client i ≠ .woken := fun i hwoken => by
    have hclient := hfits.client i
    cases hstage : s.stage i with
    | getDBConn => exact (hstuck.not_looking hstage).2 hwoken
    | _ => simp [hstage, Stage.ClientOk, hwoken] at hclient
  have hclient := hfits.client i
  cases hstage : s.stage i with
  | returned => rfl
  | getDBConn =>
    exfalso
    rcases (hstage ▸ hclient : Stage.getDBConn.ClientOk _) with hidle | hwaiting | hwoken'
    · exact (hstuck.not_looking hstage).1 hidle
    · obtain ⟨j, hj | ⟨pconn, hj⟩⟩ := hconns.waits_for hwaiting
      · exact hwoken j hj
      · exact hstuck.not_holding hfits j pconn hj
    · exact hwoken i hwoken'
  | insertUser =>
    obtain ⟨conn, hconn⟩ := (hstage ▸ hclient : Stage.insertUser.ClientOk _)
    exact absurd hconn (hstuck.not_holding hfits i _)
  | relConn =>
    obtain ⟨pconn, hpconn⟩ := (hstage ▸ hclient : Stage.relConn.ClientOk _)
    exact absurd hpconn (hstuck.not_holding hfits i _)

/-- And the thread pool cannot take a step of its own. -/
theorem threads (hstuck : Stuck s) (hreturned : ∀ i, s.stage i = .returned) : ThreadPool.Stuck s.threads :=
  fun label threads hstep hown => by
    have hnext := hstuck.next_eq_none (.thread label) hown hstep.1
    have hthreads : (s.threads.next label).isSome := by rw [hstep.2]; rfl
    rw [State.next] at hnext
    cases label <;> simp [State.thread, hreturned] at hnext <;> simp [hnext] at hthreads

end Stuck

/-- When nothing can step any more, everything has been done. -/
theorem Reachable.done_of_stuck (hn : 1 ≤ n) (hmax : 1 ≤ queueMaxNum) (h : Reachable maxConn queueMaxNum quota s)
    (hstuck : Stuck s) : Done quota s := by
  obtain ⟨hfits, -⟩ := h.fits_recorded (by omega)
  obtain ⟨jobs, hinv, hsole, hwaits⟩ := h.threads.waits (by omega)
  have hthreads := (hstuck.threads fun i => hstuck.returned hfits h.conns i).done hn hinv hsole hwaits
    (h.threads.quota_eq (by omega))
  obtain ⟨hrecorded, hidle⟩ := h.finished hmax hthreads.destroyed
  obtain ⟨place, hrep⟩ := h.conns.represents
  refine ⟨hthreads, hrecorded, hidle, ?_⟩
  refine (List.perm_ext_iff_of_nodup hrep.destruct_nodup hrep.openedNodup).mpr fun conn => ?_
  rw [hrep.mem_destruct]
  exact and_iff_left fun i => by simp [hidle i]

/-- From every state of every run, whatever the bound on the connections, the threads by themselves carry on to the end
in a bounded number of steps, and when none of them can step, every accepted job has been executed and served, all
connections are back, and `~DBPool` closes each of them once. -/
theorem program_finishes [Fintype P] (hn : 1 ≤ n) (hmax : 1 ≤ queueMaxNum)
    (h : Reachable maxConn queueMaxNum quota s) :
    (∀ labels s', Run Step s labels s' → (∀ label ∈ labels, label.IsOwn) →
      labels.length ≤ s.rank ∧ (Stuck s' → Done quota s')) ∧
    ∃ labels s', Run Step s labels s' ∧ (∀ label ∈ labels, label.IsOwn) ∧ Done quota s' := by
  have hinv : (∃ jobs, ThreadPool.Inv s.threads jobs) ∧ ThreadPool.Busy s.threads ∧ Fits s := by
    obtain ⟨hjobs, hbusy⟩ := ThreadPool.busy_of_reachable (by omega) h.threads
    exact ⟨hjobs, hbusy, (h.fits_recorded (by omega)).1⟩
  have hdone : ∀ labels s', Run Step s labels s' → Stuck s' → Done quota s' := fun labels s' hrun hstuck =>
    Reachable.done_of_stuck hn hmax (hrun.preserves (fun _ _ _ hs hstep => .step hs hstep) h) hstuck
  refine ⟨fun labels s' hrun hown => ⟨?_, hdone labels s' hrun⟩, ?_⟩
  · have hlength := ranked.length_le hinv hrun hown
    omega
  · obtain ⟨labels, s', hrun, hown, hstuck⟩ := ranked.exists_stuck hinv
    exact ⟨labels, s', hrun, hown, hdone labels s' hrun hstuck⟩

/-- Two workers and one connection, for which the second worker waits. -/
theorem program_finishes_waiting : ∃ s : State 2 Unit, s.conns.client 0 = .holding (some 8) ∧
    s.conns.client 1 = .waiting ∧
    (∀ labels s', Run Step s labels s' → (∀ label ∈ labels, label.IsOwn) →
      labels.length ≤ s.rank ∧ (Stuck s' → Done (fun _ => 2) s')) ∧
    ∃ labels s', Run Step s labels s' ∧ (∀ label ∈ labels, label.IsOwn) ∧ Done (fun _ => 2) s' := by
  let start : State 2 Unit := ⟨ThreadPool.State.new 2 Unit 2 fun _ => 2, ⟨⟨1, 1, [some 8]⟩, fun _ => .idle, [⟨8, 0⟩]⟩,
    fun _ => .returned, [], []⟩
  let labels : List (Label 2 Unit) :=
    [.thread (.addJob () (some 8)), .thread (.addJob () (some 16)), .thread (.work 0 fun _ => false),
      .thread (.work 1 fun _ => false), .thread (.invoke 0), .thread (.invoke 1), .getDBConn 0 ⟨16, 0⟩,
      .getDBConn 1 ⟨16, 0⟩]
  have hinit : Initial 1 2 (fun _ => 2) start := ⟨_, ⟨⟨8, 0⟩, _, rfl, rfl⟩, rfl⟩
  have hrun : (Transition.replay (fun s label => s.check label) start labels).map
      (fun s => (s.conns.client 0, s.conns.client 1)) = some (.holding (some 8), .waiting) := by decide
  obtain ⟨s, hrun, hs⟩ := Option.map_eq_some_iff.mp hrun
  obtain ⟨hzero, hone⟩ := Prod.mk.inj hs
  have hreach : Reachable 1 2 (fun _ => 2) s :=
    Transition.Reachable.replay (fun s _ _ => s.step_of_check) (.init hinit) hrun
  exact ⟨s, hzero, hone, program_finishes (by decide) (by decide) hreach⟩

end CppProject.WorkUsePool
