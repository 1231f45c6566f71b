import CppProject.DBPool.Pool
import CppProject.Lib.Transition
import Mathlib.Data.Fintype.Basic
import Mathlib.Tactic.Simps.Basic

/-!
# Clients of the connection pool

Any set `C` of threads, each calling `GetDBConn` and then `RelConn` on what it got, as
`workUsePool` does, any number of times. A step is one section under the lock. The signal of
`RelConn` wakes a nonempty set of waiting clients if there is any, and a waiting client may wake
spuriously. `new` returns no address of a connection that is open.

The calls of `DBConn::Init` are recorded; no section reads the record.
-/

namespace CppProject.DBPool

/-- Where a client is: before `GetDBConn`, in its `Wait`, or between `GetDBConn` and `RelConn`. -/
inductive ClientPhase
  | idle
  | waiting
  | woken
  | holding (pconn : Option ConnPtr)
  deriving DecidableEq

/-- The pool, the clients, and the calls of `DBConn::Init` so far. -/
structure State (C : Type*) where
  pool : Pool
  client : C → ClientPhase
  attempts : List Attempt

variable {C : Type*}

/-- The connections whose `DBConn::Init` succeeded. None of them is destroyed before the pool is. -/
def openConns (attempts : List Attempt) : List ConnPtr :=
  (attempts.filter fun attempt => attempt.ret = 0).map Attempt.conn

/-- A connection whose `Init` fails is not opened. -/
theorem openConns_append_failed (attempts : List Attempt) {attempt : Attempt} (h : attempt.ret ≠ 0) :
    openConns (attempts ++ [attempt]) = openConns attempts := by
  simp [openConns, h]

/-- A connection whose `Init` succeeds is opened last. -/
theorem openConns_append (attempts : List Attempt) {attempt : Attempt} (h : attempt.ret = 0) :
    openConns (attempts ++ [attempt]) = openConns attempts ++ [attempt.conn] := by
  simp [openConns, h]

/-- `m_free_notify.Signal()`, with the clients it wakes. -/
@[simps] def State.wakeClients (s : State C) (wake : C → Bool) : State C :=
  { s with client := fun c => if wake c then .woken else s.client c }

/-- A section of a client, or a spurious wakeup. -/
inductive Label (C : Type*)
  | getDBConn (c : C) (attempt : Attempt)
  | relConn (c : C) (wake : C → Bool)
  | spurious (c : C)

/-- What may happen: `new` returns an unused address; a signal wakes waiting clients only, and one
at least if there is any. -/
def Label.Valid (s : State C) : Label C → Prop
  | .getDBConn _ attempt => attempt.conn ∉ openConns s.attempts
  | .relConn _ wake => (∀ c, wake c = true → s.client c = .waiting) ∧
      ∀ c, s.client c = .waiting → ∃ c', wake c' = true
  | .spurious _ => True

variable [DecidableEq C]

/-- Move one client. -/
@[simps] def State.setClient (s : State C) (c : C) (phase : ClientPhase) : State C :=
  { s with client := Function.update s.client c phase }

/-- After a section of `GetDBConn`. -/
def State.afterGetDBConn (s : State C) (c : C) : GetOutcome × Pool × List Attempt → State C
  | (.wait, pool, attempts) =>
    { s with pool := pool, attempts := s.attempts ++ attempts }.setClient c .waiting
  | (.got pconn, pool, attempts) =>
    { s with pool := pool, attempts := s.attempts ++ attempts }.setClient c (.holding pconn)

/-- The state after a step, if the client can take it. -/
def State.next (s : State C) : Label C → Option (State C)
  | .getDBConn c attempt => match s.client c with
    | .idle => some (s.afterGetDBConn c (getDBConn s.pool attempt))
    | .woken => some (s.afterGetDBConn c (getDBConn s.pool attempt))
    | _ => none
  | .relConn c wake => match s.client c with
    | .holding pconn =>
      some (({ s with pool := relConn s.pool pconn }.wakeClients wake).setClient c .idle)
    | _ => none
  | .spurious c => match s.client c with
    | .waiting => some (s.setClient c .woken)
    | _ => none

/-- One step of one client. -/
def Step (s : State C) (label : Label C) (s' : State C) : Prop :=
  label.Valid s ∧ s.next label = some s'

/-- After the constructor and a successful `Init`. -/
def Initial (maxConn : ℤ) (s : State C) : Prop :=
  ∃ attempt pool, (Pool.new maxConn).init attempt = (0, pool) ∧ s = ⟨pool, fun _ => .idle, [attempt]⟩

/-- The states of all runs of a pool with the given maximum. -/
def Reachable (maxConn : ℤ) : State C → Prop := Transition.Reachable (Initial maxConn) Step

instance Label.decidableValid [Fintype C] (s : State C) : (label : Label C) → Decidable (label.Valid s)
  | .getDBConn _ attempt => inferInstanceAs (Decidable (attempt.conn ∉ openConns s.attempts))
  | .relConn _ wake => inferInstanceAs (Decidable ((∀ c, wake c = true → s.client c = .waiting) ∧
      ∀ c, s.client c = .waiting → ∃ c', wake c' = true))
  | .spurious _ => inferInstanceAs (Decidable True)

/-- Take a step after checking that it is valid. -/
def State.check [Fintype C] (s : State C) (label : Label C) : Option (State C) :=
  if label.Valid s then s.next label else none

/-- A checked step is a step. -/
theorem State.step_of_check [Fintype C] {s s' : State C} {label : Label C}
    (h : s.check label = some s') : Step s label s' := by
  rw [State.check] at h
  exact Option.ite_none_right_eq_some.mp h

/-! ## What a step can do -/

/-- Everything a step can do. -/
inductive Effect (s : State C) : Label C → State C → Prop
  | pooled {c : C} {attempt : Attempt} {pconn : Option ConnPtr} {rest : List (Option ConnPtr)} :
      (s.client c = .idle ∨ s.client c = .woken) → s.pool.mFreeList = pconn :: rest →
      Effect s (.getDBConn c attempt) ({ s with pool.mFreeList := rest }.setClient c (.holding pconn))
  | wait {c : C} {attempt : Attempt} : (s.client c = .idle ∨ s.client c = .woken) →
      s.pool.mFreeList = [] → s.pool.mDbCurConnCnt ≥ s.pool.mDbMaxConnCnt →
      Effect s (.getDBConn c attempt) (s.setClient c .waiting)
  | openFailed {c : C} {attempt : Attempt} : (s.client c = .idle ∨ s.client c = .woken) →
      s.pool.mFreeList = [] → s.pool.mDbCurConnCnt < s.pool.mDbMaxConnCnt → attempt.ret ≠ 0 →
      Effect s (.getDBConn c attempt)
        ({ s with attempts := s.attempts ++ [attempt] }.setClient c (.holding none))
  | opened {c : C} {attempt : Attempt} : (s.client c = .idle ∨ s.client c = .woken) →
      s.pool.mFreeList = [] → s.pool.mDbCurConnCnt < s.pool.mDbMaxConnCnt → attempt.ret = 0 →
      attempt.conn ∉ openConns s.attempts →
      Effect s (.getDBConn c attempt)
        ({ s with
            pool.mDbCurConnCnt := s.pool.mDbCurConnCnt + 1
            attempts := s.attempts ++ [attempt] }.setClient c (.holding (some attempt.conn)))
  | released {c : C} {wake : C → Bool} {pconn : Option ConnPtr} : s.client c = .holding pconn →
      (Label.relConn c wake).Valid s →
      Effect s (.relConn c wake)
        (({ s with pool := relConn s.pool pconn }.wakeClients wake).setClient c .idle)
  | spurious {c : C} : s.client c = .waiting → Effect s (.spurious c) (s.setClient c .woken)

/-- A section of `GetDBConn`. -/
theorem Effect.of_getDBConn {s : State C} {c : C} {attempt : Attempt}
    (hc : s.client c = .idle ∨ s.client c = .woken) (hfresh : attempt.conn ∉ openConns s.attempts) :
    Effect s (.getDBConn c attempt) (s.afterGetDBConn c (getDBConn s.pool attempt)) := by
  rw [getDBConn]
  cases hlist : s.pool.mFreeList with
  | cons pconn rest => simpa [State.afterGetDBConn] using Effect.pooled hc hlist
  | nil =>
    by_cases hfull : s.pool.mDbCurConnCnt ≥ s.pool.mDbMaxConnCnt
    · simpa [hfull, State.afterGetDBConn] using Effect.wait hc hlist hfull
    · by_cases hret : attempt.ret ≠ 0
      · simpa [hfull, hret, State.afterGetDBConn] using Effect.openFailed hc hlist (not_le.mp hfull) hret
      · simpa [hfull, hret, hlist, State.afterGetDBConn] using
          Effect.opened hc hlist (not_le.mp hfull) (not_not.mp hret) hfresh

/-- Every step has one of the listed effects. -/
theorem Effect.of_step {s s' : State C} {label : Label C} (hstep : Step s label s') :
    Effect s label s' := by
  obtain ⟨hvalid, hnext⟩ := hstep
  cases label with
  | getDBConn c attempt =>
    rw [State.next] at hnext
    split at hnext
    · exact Option.some.inj hnext ▸ .of_getDBConn (Or.inl (by assumption)) hvalid
    · exact Option.some.inj hnext ▸ .of_getDBConn (Or.inr (by assumption)) hvalid
    · contradiction
  | relConn c wake =>
    rw [State.next] at hnext
    split at hnext
    · exact Option.some.inj hnext ▸ .released (by assumption) hvalid
    · contradiction
  | spurious c =>
    rw [State.next] at hnext
    split at hnext
    · exact Option.some.inj hnext ▸ .spurious (by assumption)
    · contradiction

end CppProject.DBPool
