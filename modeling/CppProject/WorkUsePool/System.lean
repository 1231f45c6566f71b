import CppProject.DBPool.Clients
import CppProject.ThreadPool.System

/-!
# The thread pool on the connection pool

The program of `main_ThreadPool.cpp` with `use_pool`: every job is a call of `workUsePool` with the one
connection pool. A worker that executes it calls `GetDBConn`, then `insertUser` if it got a connection, and
`RelConn` with what it got, be it null. The states of the two pools are those of their own models, where
each worker is a client of the connection pool; a callback returns behind its `RelConn`.

The record of the inserts and of the jobs that got no connection is bookkeeping. No step reads it.
-/

namespace CppProject.WorkUsePool

open ThreadPool (Ticket)

/-- Where a worker is in `workUsePool`. -/
inductive Stage
  | getDBConn
  | insertUser
  | relConn
  | returned
  deriving DecidableEq

/-- The two pools, the workers, and what the jobs have done. -/
structure State (n : ℕ) (P : Type*) where
  threads : ThreadPool.State n P Unit
  conns : DBPool.State (Fin n)
  stage : Fin n → Stage
  inserted : List (Ticket P × DBPool.ConnPtr)
  failed : List (Ticket P)

/-- A step of the thread pool, a step of `workUsePool`, or a spurious wakeup in `GetDBConn`. -/
inductive Label (n : ℕ) (P : Type*)
  | thread (label : ThreadPool.Label n P Unit)
  | getDBConn (i : Fin n) (attempt : DBPool.Attempt)
  | insertUser (i : Fin n)
  | relConn (i : Fin n) (wake : Fin n → Bool)
  | spurious (i : Fin n)

/-- A step a thread takes by itself. -/
def Label.IsOwn {n : ℕ} {P : Type*} : Label n P → Prop
  | .thread label => label.IsOwn
  | .spurious _ => False
  | _ => True

variable {n : ℕ} {P : Type*} (s : State n P)

/-- The job that a worker executes, for the record. -/
def State.ticket (i : Fin n) : List (Ticket P) :=
  match s.threads.worker i with
  | .running pjob => s.threads.ticketAt pjob
  | _ => []

/-- A worker moves within `workUsePool`. -/
@[simps] def State.setStage (i : Fin n) (stage : Stage) : State n P :=
  { s with stage := Function.update s.stage i stage }

/-- After a section of `GetDBConn`: in `Wait`, or with a pointer. -/
def State.afterGetDBConn (i : Fin n) (conns : DBPool.State (Fin n)) : State n P :=
  match conns.client i with
  | .holding (some _) => { s with conns := conns }.setStage i .insertUser
  | .holding none => { { s with conns := conns }.setStage i .relConn with failed := s.failed ++ s.ticket i }
  | _ => { s with conns := conns }

/-- `GetDBConn`. -/
def State.getDBConn (i : Fin n) (attempt : DBPool.Attempt) : Option (State n P) :=
  if s.stage i = .getDBConn then (s.conns.next (.getDBConn i attempt)).map (s.afterGetDBConn i) else none

/-- `table->insertUser()` on the connection. -/
def State.insertUser (i : Fin n) : Option (State n P) :=
  match s.stage i, s.conns.client i with
  | .insertUser, .holding (some conn) =>
    some { s.setStage i .relConn with inserted := s.inserted ++ (s.ticket i).map fun t => (t, conn) }
  | _, _ => none

/-- `RelConn`, behind which `workUsePool` returns. -/
def State.relConn (i : Fin n) (wake : Fin n → Bool) : Option (State n P) :=
  if s.stage i = .relConn then
    (s.conns.next (.relConn i wake)).map fun conns => { s with conns := conns }.setStage i .returned
  else none

variable [DecidableEq P]

/-- A step of the thread pool: a callback is `workUsePool`, and returns when it has. -/
def State.thread : ThreadPool.Label n P Unit → Option (State n P)
  | .invoke i => (s.threads.next (.invoke i)).map fun threads => { s with threads := threads }.setStage i .getDBConn
  | .callbackReturn i =>
    if s.stage i = .returned then
      (s.threads.next (.callbackReturn i)).map fun threads => { s with threads := threads }
    else none
  | label => (s.threads.next label).map fun threads => { s with threads := threads }

/-- The state after a step, if the thread can take it. -/
def State.next : Label n P → Option (State n P)
  | .thread label => s.thread label
  | .getDBConn i attempt => s.getDBConn i attempt
  | .insertUser i => s.insertUser i
  | .relConn i wake => s.relConn i wake
  | .spurious i => (s.conns.next (.spurious i)).map fun conns => { s with conns := conns }

omit [DecidableEq P] in
/-- What may happen, as in the two pools. -/
def Label.Valid : Label n P → Prop
  | .thread label => label.Valid s.threads
  | .getDBConn i attempt => (DBPool.Label.getDBConn i attempt).Valid s.conns
  | .insertUser _ => True
  | .relConn i wake => (DBPool.Label.relConn i wake).Valid s.conns
  | .spurious i => (DBPool.Label.spurious i).Valid s.conns

/-- One step of one thread. -/
def Step (s : State n P) (label : Label n P) (s' : State n P) : Prop :=
  label.Valid s ∧ s.next label = some s'

/-- After the `Init` of both pools, with the number of jobs each producer will add. -/
def Initial (maxConn queueMaxNum : ℤ) (quota : P → ℕ) (s : State n P) : Prop :=
  ∃ conns, DBPool.Initial maxConn conns ∧
    s = ⟨ThreadPool.State.new n Unit queueMaxNum quota, conns, fun _ => .returned, [], []⟩

/-- `main` takes the connection for itself before it starts the workers, and leaves the pool as `Init` did. -/
theorem main_prologue {maxConn : ℤ} {first attempt : DBPool.Attempt} {pool : DBPool.Pool}
    (hinit : (DBPool.Pool.new maxConn).init first = (0, pool)) :
    ∃ taken, DBPool.getDBConn pool attempt = (.got (some first.conn), taken, []) ∧
      DBPool.relConn taken (some first.conn) = pool := by
  rw [DBPool.Pool.init] at hinit
  split at hinit
  · next hret => exact absurd (Prod.mk.inj hinit).1 hret
  · obtain ⟨-, rfl⟩ := Prod.mk.inj hinit
    exact ⟨_, rfl, rfl⟩

/-- The states of all runs. -/
def Reachable (maxConn queueMaxNum : ℤ) (quota : P → ℕ) : State n P → Prop :=
  Transition.Reachable (Initial maxConn queueMaxNum quota) Step

omit [DecidableEq P] in
instance Label.decidableValid : (label : Label n P) → Decidable (label.Valid s)
  | .thread label => inferInstanceAs (Decidable (label.Valid s.threads))
  | .getDBConn i attempt => inferInstanceAs (Decidable ((DBPool.Label.getDBConn i attempt).Valid s.conns))
  | .insertUser _ => inferInstanceAs (Decidable True)
  | .relConn i wake => inferInstanceAs (Decidable ((DBPool.Label.relConn i wake).Valid s.conns))
  | .spurious i => inferInstanceAs (Decidable ((DBPool.Label.spurious i).Valid s.conns))

/-- Take a step after checking that it is valid. -/
def State.check (label : Label n P) : Option (State n P) := if label.Valid s then s.next label else none

/-- A checked step is a step. -/
theorem State.step_of_check {s s' : State n P} {label : Label n P} (h : s.check label = some s') :
    Step s label s' := by
  rw [State.check] at h
  exact Option.ite_none_right_eq_some.mp h

/-! ## What a step can do -/

/-- Everything a step can do. -/
inductive Effect (s : State n P) : Label n P → State n P → Prop
  | thread {label : ThreadPool.Label n P Unit} {threads : ThreadPool.State n P Unit} : (∀ i, label ≠ .invoke i) →
      (∀ i, label ≠ .callbackReturn i) → ThreadPool.Step s.threads label threads →
      Effect s (.thread label) { s with threads := threads }
  | invoke {i : Fin n} {threads : ThreadPool.State n P Unit} : ThreadPool.Step s.threads (.invoke i) threads →
      Effect s (.thread (.invoke i)) ({ s with threads := threads }.setStage i .getDBConn)
  | callbackReturn {i : Fin n} {threads : ThreadPool.State n P Unit} : s.stage i = .returned →
      ThreadPool.Step s.threads (.callbackReturn i) threads →
      Effect s (.thread (.callbackReturn i)) { s with threads := threads }
  | wait {i : Fin n} {attempt : DBPool.Attempt} {conns : DBPool.State (Fin n)} : s.stage i = .getDBConn →
      DBPool.Step s.conns (.getDBConn i attempt) conns → conns.client i = .waiting →
      Effect s (.getDBConn i attempt) { s with conns := conns }
  | failed {i : Fin n} {attempt : DBPool.Attempt} {conns : DBPool.State (Fin n)} : s.stage i = .getDBConn →
      DBPool.Step s.conns (.getDBConn i attempt) conns → conns.client i = .holding none →
      Effect s (.getDBConn i attempt)
        { { s with conns := conns }.setStage i .relConn with failed := s.failed ++ s.ticket i }
  | got {i : Fin n} {attempt : DBPool.Attempt} {conns : DBPool.State (Fin n)} {conn : DBPool.ConnPtr} :
      s.stage i = .getDBConn → DBPool.Step s.conns (.getDBConn i attempt) conns →
      conns.client i = .holding (some conn) →
      Effect s (.getDBConn i attempt) ({ s with conns := conns }.setStage i .insertUser)
  | insertUser {i : Fin n} {conn : DBPool.ConnPtr} : s.stage i = .insertUser →
      s.conns.client i = .holding (some conn) →
      Effect s (.insertUser i)
        { s.setStage i .relConn with inserted := s.inserted ++ (s.ticket i).map fun t => (t, conn) }
  | relConn {i : Fin n} {wake : Fin n → Bool} {conns : DBPool.State (Fin n)} : s.stage i = .relConn →
      DBPool.Step s.conns (.relConn i wake) conns →
      Effect s (.relConn i wake) ({ s with conns := conns }.setStage i .returned)
  | spurious {i : Fin n} {conns : DBPool.State (Fin n)} : DBPool.Step s.conns (.spurious i) conns →
      Effect s (.spurious i) { s with conns := conns }

/-- A section of `GetDBConn` ends in `Wait` or with a pointer. -/
theorem client_of_getDBConn {C : Type*} [DecidableEq C] {s s' : DBPool.State C} {c : C} {attempt : DBPool.Attempt}
    (hstep : DBPool.Step s (.getDBConn c attempt) s') :
    (s.client c = .idle ∨ s.client c = .woken) ∧
      ∃ phase, s'.client = Function.update s.client c phase ∧
        (phase = .waiting ∨ phase = .holding none ∨ ∃ conn, phase = .holding (some conn)) := by
  have heffect := DBPool.Effect.of_step hstep
  cases heffect with
  | @pooled _ _ pconn _ hc =>
    refine ⟨hc, .holding pconn, rfl, ?_⟩
    cases pconn with
    | none => exact Or.inr (Or.inl rfl)
    | some conn => exact Or.inr (Or.inr ⟨conn, rfl⟩)
  | wait hc => exact ⟨hc, .waiting, rfl, Or.inl rfl⟩
  | openFailed hc => exact ⟨hc, .holding none, rfl, Or.inr (Or.inl rfl)⟩
  | opened hc => exact ⟨hc, _, rfl, Or.inr (Or.inr ⟨_, rfl⟩)⟩

variable {s} {s' : State n P}

/-- A step of the thread pool. -/
theorem Effect.of_thread {label : ThreadPool.Label n P Unit} (hvalid : label.Valid s.threads)
    (hnext : s.thread label = some s') : Effect s (.thread label) s' := by
  cases label with
  | invoke i =>
    obtain ⟨threads, hthreads, rfl⟩ := Option.map_eq_some_iff.mp hnext
    exact .invoke ⟨hvalid, hthreads⟩
  | callbackReturn i =>
    obtain ⟨hstage, hmap⟩ := Option.ite_none_right_eq_some.mp hnext
    obtain ⟨threads, hthreads, rfl⟩ := Option.map_eq_some_iff.mp hmap
    exact .callbackReturn hstage ⟨hvalid, hthreads⟩
  | _ =>
    obtain ⟨threads, hthreads, rfl⟩ := Option.map_eq_some_iff.mp hnext
    exact .thread (by simp) (by simp) ⟨hvalid, hthreads⟩

/-- Every step has one of the listed effects. -/
theorem Effect.of_step {label : Label n P} (hstep : Step s label s') : Effect s label s' := by
  obtain ⟨hvalid, hnext⟩ := hstep
  cases label with
  | thread label => exact .of_thread hvalid hnext
  | getDBConn i attempt =>
    obtain ⟨hstage, hmap⟩ := Option.ite_none_right_eq_some.mp hnext
    obtain ⟨conns, hconns, rfl⟩ := Option.map_eq_some_iff.mp hmap
    have hstep : DBPool.Step s.conns (.getDBConn i attempt) conns := ⟨hvalid, hconns⟩
    obtain ⟨-, phase, hclient, hphase⟩ := client_of_getDBConn hstep
    have hself : conns.client i = phase := by rw [hclient, Function.update_self]
    rcases hphase with rfl | rfl | ⟨conn, rfl⟩
    · simpa only [State.afterGetDBConn, hself] using Effect.wait hstage hstep hself
    · simpa only [State.afterGetDBConn, hself] using Effect.failed hstage hstep hself
    · simpa only [State.afterGetDBConn, hself] using Effect.got hstage hstep hself
  | insertUser i =>
    rw [State.next, State.insertUser] at hnext
    split at hnext
    · next hstage hclient => exact Option.some.inj hnext ▸ .insertUser hstage hclient
    · contradiction
  | relConn i wake =>
    obtain ⟨hstage, hmap⟩ := Option.ite_none_right_eq_some.mp hnext
    obtain ⟨conns, hconns, rfl⟩ := Option.map_eq_some_iff.mp hmap
    exact .relConn hstage ⟨hvalid, hconns⟩
  | spurious i =>
    obtain ⟨conns, hconns, rfl⟩ := Option.map_eq_some_iff.mp hnext
    exact .spurious ⟨hvalid, hconns⟩

end CppProject.WorkUsePool
