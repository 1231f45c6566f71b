import CppProject.DBPool.Clients

/-!
# Null pointers on the free list

A call of `GetDBConn` whose `DBConn::Init` fails returns the null pointer, and `RelConn` appends the
null pointer like any other. As long as no client passes it, a call fails only for its own failure;
the first client that does leaves it on the list for another one to get.
-/

namespace CppProject.DBPool

variable {C : Type*} {s s' : State C}

/-- The step does not call `RelConn` with the null pointer. -/
def ReleasesConn (s : State C) : Label C → Prop
  | .relConn c _ => s.client c ≠ .holding none
  | _ => True

instance ReleasesConn.decidable (s : State C) : (label : Label C) → Decidable (ReleasesConn s label)
  | .getDBConn _ _ => inferInstanceAs (Decidable True)
  | .relConn c _ => inferInstanceAs (Decidable (s.client c ≠ .holding none))
  | .spurious _ => inferInstanceAs (Decidable True)

/-- Where a `GetDBConn` returns null: its own `DBConn::Init` failed, and no connection was free. -/
structure FailsForItself [DecidableEq C] (s : State C) : Prop where
  noNull : none ∉ s.pool.mFreeList
  null : ∀ c attempt s', Step s (.getDBConn c attempt) s' → s'.client c = .holding none →
    s'.attempts = s.attempts ++ [attempt] ∧ attempt.ret ≠ 0
  conn : ∀ c attempt s' pconn, Step s (.getDBConn c attempt) s' → some pconn ∈ s.pool.mFreeList →
    ∃ pconn', s'.client c = .holding (some pconn')

variable [DecidableEq C]

/-- A call that returns null with no null pointer on the list. -/
theorem Effect.null {c : C} {attempt : Attempt} (h : Effect s (.getDBConn c attempt) s')
    (hlist : none ∉ s.pool.mFreeList) (hnull : s'.client c = .holding none) :
    s'.attempts = s.attempts ++ [attempt] ∧ attempt.ret ≠ 0 := by
  cases h with
  | @pooled _ _ pconn rest _ hfront =>
    obtain rfl : pconn = none := by simpa using hnull
    exact absurd (hfront ▸ List.mem_cons_self) hlist
  | wait => simp at hnull
  | openFailed _ _ _ hret => exact ⟨rfl, hret⟩
  | opened => simp at hnull

/-- A call made while the list has connections only, and one at least. -/
theorem Effect.conn {c : C} {attempt : Attempt} (h : Effect s (.getDBConn c attempt) s')
    (hlist : none ∉ s.pool.mFreeList) (hne : s.pool.mFreeList ≠ []) :
    ∃ pconn, s'.client c = .holding (some pconn) := by
  cases h with
  | @pooled _ _ pconn rest _ hfront =>
    cases pconn with
    | none => exact absurd (hfront ▸ List.mem_cons_self) hlist
    | some pconn => exact ⟨pconn, by simp⟩
  | wait _ hempty => exact absurd hempty hne
  | openFailed _ hempty => exact absurd hempty hne
  | opened _ hempty => exact absurd hempty hne

/-- Calls fail for themselves exactly while there is no null pointer on the list. -/
theorem failsForItself_iff : FailsForItself s ↔ none ∉ s.pool.mFreeList :=
  ⟨FailsForItself.noNull, fun hlist => {
    noNull := hlist
    null := fun _ _ _ hstep => (Effect.of_step hstep).null hlist
    conn := fun _ _ _ _ hstep hmem => (Effect.of_step hstep).conn hlist (List.ne_nil_of_mem hmem) }⟩

/-- A step puts the null pointer on a list without it exactly when it is a release of that pointer. -/
theorem Effect.null_mem_iff {label : Label C} (h : Effect s label s') (hlist : none ∉ s.pool.mFreeList) :
    none ∉ s'.pool.mFreeList ↔ ReleasesConn s label := by
  cases h with
  | pooled _ hfront => exact iff_of_true (fun hmem => hlist (hfront ▸ List.mem_cons_of_mem _ hmem)) trivial
  | wait => exact iff_of_true hlist trivial
  | openFailed => exact iff_of_true hlist trivial
  | opened => exact iff_of_true hlist trivial
  | @released c wake pconn hc =>
    rw [State.setClient_pool, State.wakeClients_pool, mem_relConn, ReleasesConn, hc]
    cases pconn <;> simp [hlist]
  | spurious => exact iff_of_true hlist trivial

omit [DecidableEq C] in
/-- `Init` puts a connection on the list. -/
theorem noNull_initial {maxConn : ℤ} (h : Initial maxConn s) : none ∉ s.pool.mFreeList := by
  obtain ⟨attempt, pool, hinit, rfl⟩ := h
  rw [Pool.init] at hinit
  split at hinit
  · next hret => exact absurd (Prod.mk.inj hinit).1 hret
  · obtain ⟨-, rfl⟩ := Prod.mk.inj hinit
    simp [Pool.pushBack, Pool.new]

/-- In every run in which no client releases the null pointer, every call of `GetDBConn` that returns
null has failed to open a connection itself, and the first release of the null pointer ends this. -/
theorem failsForItself_of_releasesConn {maxConn : ℤ}
    (h : Transition.Reachable (Initial maxConn) (Transition.Restrict Step ReleasesConn) s) :
    FailsForItself s ∧ ∀ label s', Step s label s' → (FailsForItself s' ↔ ReleasesConn s label) := by
  have hlist : none ∉ s.pool.mFreeList := Transition.Reachable.invariant
    (P := fun s => none ∉ s.pool.mFreeList) (fun _ => noNull_initial)
    (fun s label s' hlist hstep => ((Effect.of_step hstep.1).null_mem_iff hlist).mpr hstep.2) h
  refine ⟨failsForItself_iff.mpr hlist, fun label s' hstep => ?_⟩
  rw [failsForItself_iff, (Effect.of_step hstep).null_mem_iff hlist]

/-- A client opens a second connection while another one fails to, and both connections are released. -/
theorem failsForItself_of_releasesConn_run : ∃ s : State (Fin 3),
    s.pool.mFreeList = [some 8, some 16] ∧ s.client 1 = .holding none ∧
      (FailsForItself s ∧ ∀ label s', Step s label s' → (FailsForItself s' ↔ ReleasesConn s label)) := by
  let labels : List (Label (Fin 3)) := [.getDBConn 0 ⟨16, 0⟩, .getDBConn 1 ⟨16, -1⟩,
    .getDBConn 2 ⟨16, 0⟩, .relConn 0 fun _ => false, .relConn 2 fun _ => false]
  have hinit : Initial 2 (⟨⟨1, 2, [some 8]⟩, fun _ => .idle, [⟨8, 0⟩]⟩ : State (Fin 3)) := ⟨⟨8, 0⟩, _, rfl, rfl⟩
  have hrun : (Transition.replay (Transition.guard ReleasesConn State.check)
      (⟨⟨1, 2, [some 8]⟩, fun _ => .idle, [⟨8, 0⟩]⟩ : State (Fin 3)) labels).map
        (fun s => (s.pool.mFreeList, s.client 1)) = some ([some 8, some 16], .holding none) := by decide
  obtain ⟨s, hrun, hs⟩ := Option.map_eq_some_iff.mp hrun
  obtain ⟨hlist, hone⟩ := Prod.mk.inj hs
  exact ⟨s, hlist, hone, failsForItself_of_releasesConn
    (Transition.Reachable.replay_guard (fun s _ _ => s.step_of_check) (.init hinit) hrun)⟩

/-- The null pointer of a failed call is released in front of a connection, and the next caller gets
it without having called `DBConn::Init`. -/
theorem null_for_the_next_caller : ∃ s s' : State (Fin 3), Reachable 2 s ∧
    s.pool.mFreeList = [none, some 8] ∧ Step s (.getDBConn 2 ⟨16, 0⟩) s' ∧
      s'.client 2 = .holding none ∧ s'.attempts = s.attempts ∧ ¬ FailsForItself s := by
  let labels : List (Label (Fin 3)) := [.getDBConn 0 ⟨16, 0⟩, .getDBConn 1 ⟨16, -1⟩,
    .relConn 1 fun _ => false, .relConn 0 fun _ => false]
  have hinit : Initial 2 (⟨⟨1, 2, [some 8]⟩, fun _ => .idle, [⟨8, 0⟩]⟩ : State (Fin 3)) := ⟨⟨8, 0⟩, _, rfl, rfl⟩
  have hrun : ((Transition.replay State.check
      (⟨⟨1, 2, [some 8]⟩, fun _ => .idle, [⟨8, 0⟩]⟩ : State (Fin 3)) labels).bind fun s =>
        (s.check (.getDBConn 2 ⟨16, 0⟩)).map fun s' =>
          (s.pool.mFreeList, s'.client 2, s.attempts, s'.attempts)) =
      some ([none, some 8], .holding none, [⟨8, 0⟩, ⟨16, -1⟩], [⟨8, 0⟩, ⟨16, -1⟩]) := by decide
  obtain ⟨s, hrun, hstep⟩ := Option.bind_eq_some_iff.mp hrun
  obtain ⟨s', hstep, hs⟩ := Option.map_eq_some_iff.mp hstep
  simp only [Prod.mk.injEq] at hs
  obtain ⟨hlist, hgot, hbefore, hafter⟩ := hs
  have hreach : Reachable 2 s :=
    Transition.Reachable.replay (fun s _ _ => s.step_of_check) (.init hinit) hrun
  exact ⟨s, s', hreach, hlist, s.step_of_check hstep, hgot, hafter.trans hbefore.symm,
    fun hfails => hfails.noNull (by simp [hlist])⟩

end CppProject.DBPool
