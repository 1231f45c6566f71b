import CppProject.DBPool.Ownership
import CppProject.DBPool.Wakeup
import Mathlib.Data.List.ReduceOption

/-!
# The connections when the pool is destroyed

`DBPool::~DBPool` deletes what is on the free list, and nothing else knows the connections. So it closes the
connections that nobody holds, each once, and those that a client has not released are lost. A client that
waits waits for another one: a pointer is never lost between the clients and the free list.
-/

namespace CppProject.DBPool

/-- `DBPool::~DBPool`: the connections it deletes. To delete a null pointer does nothing. -/
def Pool.destruct (pool : Pool) : List ConnPtr := pool.mFreeList.reduceOption

variable {C : Type*} {s s' : State C}

/-- Some pointer is on the free list or with a client. -/
def HasPointer (s : State C) : Prop :=
  s.pool.mFreeList ≠ [] ∨ ∃ c pconn, s.client c = .holding pconn

/-- After `RelConn` the free list is not empty. -/
theorem relConn_ne_nil (pool : Pool) (conn : Option ConnPtr) : (relConn pool conn).mFreeList ≠ [] :=
  List.ne_nil_of_mem (mem_relConn.mpr (Or.inr rfl))

/-- The first connection is in the free list. -/
theorem hasPointer_initial {maxConn : ℤ} (h : Initial maxConn s) : HasPointer s := by
  obtain ⟨attempt, pool, hinit, rfl⟩ := h
  rw [Pool.init] at hinit
  split at hinit
  · next hret => exact absurd (Prod.mk.inj hinit).1 hret
  · obtain ⟨-, rfl⟩ := Prod.mk.inj hinit
    exact Or.inl (by simp [Pool.pushBack])

variable [DecidableEq C] {label : Label C}

/-- The client that takes the last pointer has it. -/
theorem HasPointer.step (h : HasPointer s) (heffect : Effect s label s') : HasPointer s' := by
  have hkept : ∀ {c : C} {phase : ClientPhase}, (∀ pconn, s.client c ≠ .holding pconn) →
      (∃ c' pconn, s.client c' = .holding pconn) →
        ∃ c' pconn, Function.update s.client c phase c' = .holding pconn := by
    rintro c phase hc ⟨c', pconn, hc'⟩
    have hne : c' ≠ c := by
      rintro rfl
      exact hc pconn hc'
    exact ⟨c', pconn, by rw [Function.update_of_ne hne, hc']⟩
  cases heffect with
  | pooled => exact Or.inr ⟨_, _, Function.update_self _ _ _⟩
  | wait hc hlist =>
    refine Or.inr (hkept (fun pconn => ?_) (h.resolve_left (not_not.mpr hlist)))
    rcases hc with hc | hc <;> simp [hc]
  | openFailed => exact Or.inr ⟨_, _, Function.update_self _ _ _⟩
  | opened => exact Or.inr ⟨_, _, Function.update_self _ _ _⟩
  | released => exact Or.inl (relConn_ne_nil _ _)
  | spurious hc => exact h.imp id (hkept (by simp [hc]))

/-- Every reachable pool has it. -/
theorem Reachable.hasPointer {maxConn : ℤ} (h : Reachable maxConn s) : HasPointer s :=
  Transition.Reachable.invariant (P := HasPointer) (fun _ => hasPointer_initial)
    (fun _ _ _ hs hstep => hs.step (.of_step hstep)) h

/-- A client that waits waits for one that has a pointer, or is about to look at the list. -/
theorem Reachable.waits_for {maxConn : ℤ} (h : Reachable maxConn s) {c : C} (hc : s.client c = .waiting) :
    ∃ c', s.client c' = .woken ∨ ∃ pconn, s.client c' = .holding pconn := by
  rcases h.hasPointer with hfree | ⟨c', pconn, hholds⟩
  · have hpos : (0 : ℕ∞) < s.pool.mFreeList.length := mod_cast List.length_pos_iff.mpr hfree
    obtain ⟨c', hwoken⟩ := Set.encard_pos.mp (hpos.trans_le (h.wakeupsCover c hc))
    exact ⟨c', Or.inl hwoken⟩
  · exact ⟨c', Or.inr ⟨pconn, hholds⟩⟩

omit [DecidableEq C] in
/-- `~DBPool` deletes the open connections that no client holds. -/
theorem Represents.mem_destruct {place : ConnPtr → Place C} (h : Represents s place) {conn : ConnPtr} :
    conn ∈ s.pool.destruct ↔ conn ∈ openConns s.attempts ∧ ∀ c, s.client c ≠ .holding (some conn) := by
  rw [Pool.destruct, List.reduceOption_mem_iff, h.free conn, h.exists_iff conn]
  have hheld : ∀ c, s.client c = .holding (some conn) ↔ place conn = .held c := fun c =>
    ClientPhase.conn?_eq_some.symm.trans (h.held conn c)
  simp only [ne_eq, hheld]
  cases place conn with
  | unopened => simp
  | free => simp
  | held c => simp

omit [DecidableEq C] in
/-- No connection is deleted twice. -/
theorem Represents.destruct_nodup {place : ConnPtr → Place C} (h : Represents s place) : s.pool.destruct.Nodup :=
  h.freeNodup.filterMap fun _ _ _ hconn hconn' => hconn.trans hconn'.symm

/-- In every reachable state `~DBPool` would close each open connection that no client holds, once, and no other one. So
when all clients are between calls it closes all that have been opened. -/
theorem destruct_closes {maxConn : ℤ} (h : Reachable maxConn s) :
    s.pool.destruct.Nodup ∧
      (∀ conn, conn ∈ s.pool.destruct ↔ conn ∈ openConns s.attempts ∧ ∀ c, s.client c ≠ .holding (some conn)) ∧
      ((∀ c, s.client c = .idle) → s.pool.destruct.Perm (openConns s.attempts)) := by
  obtain ⟨place, hrep⟩ := h.represents
  refine ⟨hrep.destruct_nodup, fun conn => hrep.mem_destruct, fun hidle => ?_⟩
  refine (List.perm_ext_iff_of_nodup hrep.destruct_nodup hrep.openedNodup).mpr fun conn => ?_
  rw [hrep.mem_destruct]
  exact and_iff_left fun c => by simp [hidle c]

/-- Two clients with a connection each, of which one has been released: `~DBPool` would close that one only. -/
theorem destruct_closes_held : ∃ s : State (Fin 2), s.pool.destruct = [8] ∧ openConns s.attempts = [8, 16] ∧
    s.client 1 = .holding (some 16) ∧ s.pool.destruct.Nodup ∧
      (∀ conn, conn ∈ s.pool.destruct ↔ conn ∈ openConns s.attempts ∧ ∀ c, s.client c ≠ .holding (some conn)) ∧
      ((∀ c, s.client c = .idle) → s.pool.destruct.Perm (openConns s.attempts)) := by
  let labels : List (Label (Fin 2)) :=
    [.getDBConn 0 ⟨16, 0⟩, .getDBConn 1 ⟨16, 0⟩, .relConn 0 fun _ => false]
  have hinit : Initial 2 (⟨⟨1, 2, [some 8]⟩, fun _ => .idle, [⟨8, 0⟩]⟩ : State (Fin 2)) := ⟨⟨8, 0⟩, _, rfl, rfl⟩
  have hrun : (Transition.replay (fun s label => s.check label)
      (⟨⟨1, 2, [some 8]⟩, fun _ => .idle, [⟨8, 0⟩]⟩ : State (Fin 2)) labels).map
        (fun s => (s.pool.destruct, openConns s.attempts, s.client 1)) =
      some ([8], [8, 16], .holding (some 16)) := by decide
  obtain ⟨s, hrun, hs⟩ := Option.map_eq_some_iff.mp hrun
  obtain ⟨hdestruct, hs⟩ := Prod.mk.inj hs
  obtain ⟨hopened, hclient⟩ := Prod.mk.inj hs
  have hreach : Reachable 2 s :=
    Transition.Reachable.replay (fun s _ _ => s.step_of_check) (.init hinit) hrun
  exact ⟨s, hdestruct, hopened, hclient, destruct_closes hreach⟩

end CppProject.DBPool
