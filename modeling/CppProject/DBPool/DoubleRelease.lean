import CppProject.DBPool.Ownership

/-!
# Releasing a connection again

The clients with a record of what each has released, and a further step: a client passes to `RelConn`
a connection it has released before. `RelConn` looks for the connection on the free list only. If it
is there, nothing changes hands; if another client has got it meanwhile, the list has it as well.
-/

namespace CppProject.DBPool

variable {C : Type*}

/-- The clients, and the connections each has released. -/
structure RecordedState (C : Type*) where
  base : State C
  released : C → List ConnPtr

/-- A step of the clients, or a repeated `RelConn` with the clients its signal wakes. -/
inductive RecordedLabel (C : Type*)
  | call (label : Label C)
  | again (c : C) (conn : ConnPtr) (wake : C → Bool)

/-- The client is not inside `GetDBConn`, and the connection is not its own again. -/
def ClientPhase.MayRepeat (conn : ConnPtr) : ClientPhase → Prop
  | .idle => True
  | .holding pconn => pconn ≠ some conn
  | _ => False

instance ClientPhase.decidableMayRepeat (conn : ConnPtr) : (phase : ClientPhase) → Decidable (phase.MayRepeat conn)
  | .idle => inferInstanceAs (Decidable True)
  | .waiting => inferInstanceAs (Decidable False)
  | .woken => inferInstanceAs (Decidable False)
  | .holding pconn => inferInstanceAs (Decidable (pconn ≠ some conn))

/-- The signal of a repeated call is that of any `RelConn`. -/
def RecordedLabel.Valid (s : RecordedState C) : RecordedLabel C → Prop
  | .call label => label.Valid s.base
  | .again c _ wake => (Label.relConn c wake).Valid s.base

instance RecordedLabel.decidableValid [Fintype C] (s : RecordedState C) :
    (label : RecordedLabel C) → Decidable (label.Valid s)
  | .call label => inferInstanceAs (Decidable (label.Valid s.base))
  | .again c _ wake => inferInstanceAs (Decidable ((Label.relConn c wake).Valid s.base))

/-- `RelConn` with a connection, by a client that keeps what it has. -/
def State.relConnAgain (s : State C) (conn : ConnPtr) (wake : C → Bool) : State C :=
  { s with pool := relConn s.pool (some conn) }.wakeClients wake

variable [DecidableEq C]

/-- The record after a step of the clients. -/
def RecordedState.record (s : RecordedState C) : Label C → C → List ConnPtr
  | .relConn c _ => Function.update s.released c ((s.base.client c).conn?.toList ++ s.released c)
  | _ => s.released

/-- The state after a step, if the client can take it. -/
def RecordedState.next (s : RecordedState C) : RecordedLabel C → Option (RecordedState C)
  | .call label => (s.base.next label).map fun base => ⟨base, s.record label⟩
  | .again c conn wake =>
    if conn ∈ s.released c ∧ (s.base.client c).MayRepeat conn then
      some { s with base := s.base.relConnAgain conn wake }
    else none

/-- One step of one client. -/
def RecordedStep (s : RecordedState C) (label : RecordedLabel C) (s' : RecordedState C) : Prop :=
  label.Valid s ∧ s.next label = some s'

/-- After `Init`, before any release. -/
def RecordedInitial (maxConn : ℤ) (s : RecordedState C) : Prop :=
  Initial maxConn s.base ∧ s.released = fun _ => []

/-- Take a step after checking that it is valid. -/
def RecordedState.check [Fintype C] (s : RecordedState C) (label : RecordedLabel C) : Option (RecordedState C) :=
  if label.Valid s then s.next label else none

/-- A checked step is a step. -/
theorem RecordedState.step_of_check [Fintype C] {s s' : RecordedState C} {label : RecordedLabel C}
    (h : s.check label = some s') : RecordedStep s label s' := by
  rw [RecordedState.check] at h
  exact Option.ite_none_right_eq_some.mp h

/-- A connection is not released again while another client holds it. -/
def NotTaken (s : RecordedState C) : RecordedLabel C → Prop
  | .call _ => True
  | .again _ conn _ => ∀ c, s.base.client c ≠ .holding (some conn)

instance NotTaken.decidable [Fintype C] (s : RecordedState C) :
    (label : RecordedLabel C) → Decidable (NotTaken s label)
  | .call _ => inferInstanceAs (Decidable True)
  | .again _ conn _ => inferInstanceAs (Decidable (∀ c, s.base.client c ≠ .holding (some conn)))

/-! ## What a repeated release does -/

/-- One holder at most, and none for a free connection. -/
structure Unshared (s : State C) : Prop where
  unique : ∀ conn c c', s.client c = .holding (some conn) → s.client c' = .holding (some conn) → c = c'
  notFree : ∀ conn c, s.client c = .holding (some conn) → some conn ∉ s.pool.mFreeList

/-- Nothing changes hands from one state to the other. -/
def SameOwnership (s s' : State C) : Prop :=
  s'.pool = s.pool ∧ ∀ c, (s'.client c).conn? = (s.client c).conn?

section
variable {s s' : State C} {place : ConnPtr → Place C} {conn : ConnPtr} {wake : C → Bool}

omit [DecidableEq C]

/-- Connections that have one place each are not shared. -/
theorem Represents.unshared (h : Represents s place) : Unshared s where
  unique := fun _ _ _ hc hc' =>
    h.held.unique (ClientPhase.conn?_eq_some.mpr hc) (ClientPhase.conn?_eq_some.mpr hc')
  notFree := fun conn c hc hfree => by
    have hheld := (h.held conn c).mp (ClientPhase.conn?_eq_some.mpr hc)
    rw [(h.free conn).mp hfree] at hheld
    contradiction

/-- An open connection that no client holds is on the list. -/
theorem Represents.free_of_not_held (h : Represents s place) (hopen : conn ∈ openConns s.attempts)
    (hheld : ∀ c, s.client c ≠ .holding (some conn)) : some conn ∈ s.pool.mFreeList := by
  rw [h.free]
  cases hplace : place conn with
  | unopened => exact absurd hplace ((h.exists_iff conn).mp hopen)
  | free => rfl
  | held c => exact absurd (ClientPhase.conn?_eq_some.mp ((h.held conn c).mpr hplace)) (hheld c)

/-- The signal wakes clients that have nothing. -/
theorem State.relConnAgain_conn? (hwake : ∀ c, wake c = true → s.client c = .waiting) (c : C) :
    ((s.relConnAgain conn wake).client c).conn? = (s.client c).conn? := by
  rw [State.relConnAgain, State.wakeClients_client]
  split
  · next hc => rw [hwake c hc]; rfl
  · rfl

/-- A release of a connection that is in the free list only wakes clients. -/
theorem State.relConnAgain_of_mem (hmem : some conn ∈ s.pool.mFreeList) :
    s.relConnAgain conn wake = s.wakeClients wake := by
  rw [State.relConnAgain, relConn, if_pos hmem]

/-- A connection that is free stays free, and only clients that wait are moved. -/
theorem Represents.relConnAgain (h : Represents s place) (hmem : some conn ∈ s.pool.mFreeList)
    (hwake : ∀ c, wake c = true → s.client c = .waiting) :
    Represents (s.relConnAgain conn wake) place := by
  rw [State.relConnAgain_of_mem hmem]
  exact h.wake hwake

/-- A connection that another client holds is on the list afterwards. -/
theorem not_unshared_relConnAgain {c : C} (hc : s.client c = .holding (some conn))
    (hwake : ∀ c, wake c = true → s.client c = .waiting) : ¬ Unshared (s.relConnAgain conn wake) := fun h => by
  have hheld : ((s.relConnAgain conn wake).client c).conn? = _ := State.relConnAgain_conn? hwake c
  rw [hc] at hheld
  exact h.notFree conn c (ClientPhase.conn?_eq_some.mp hheld) (mem_relConn.mpr (Or.inr rfl))

/-- A repeated release is without effect if no client holds the connection, and otherwise shares it. -/
theorem Represents.relConnAgain_iff (h : Represents s place) (hopen : conn ∈ openConns s.attempts)
    (hwake : ∀ c, wake c = true → s.client c = .waiting) :
    (SameOwnership s (s.relConnAgain conn wake) ↔ ∀ c, s.client c ≠ .holding (some conn)) ∧
      (Unshared (s.relConnAgain conn wake) ↔ ∀ c, s.client c ≠ .holding (some conn)) := by
  by_cases hheld : ∀ c, s.client c ≠ .holding (some conn)
  · have hmem := h.free_of_not_held hopen hheld
    refine ⟨iff_of_true ⟨?_, State.relConnAgain_conn? hwake⟩ hheld,
      iff_of_true (h.relConnAgain hmem hwake).unshared hheld⟩
    rw [State.relConnAgain_of_mem hmem, State.wakeClients_pool]
  · obtain ⟨c, hc⟩ := not_forall_not.mp hheld
    refine ⟨iff_of_false (fun hsame => ?_) hheld, iff_of_false (not_unshared_relConnAgain hc hwake) hheld⟩
    have hmem : some conn ∈ (relConn s.pool (some conn)).mFreeList := mem_relConn.mpr (Or.inr rfl)
    exact h.unshared.notFree conn c hc (hsame.1 ▸ hmem)

end

/-! ## Runs -/

/-- Connections stay open. -/
theorem Effect.openConns_subset {s s' : State C} {label : Label C} (h : Effect s label s') {conn : ConnPtr}
    (hopen : conn ∈ openConns s.attempts) : conn ∈ openConns s'.attempts := by
  cases h with
  | openFailed _ _ _ hret =>
    rw [State.setClient_attempts, openConns_append_failed _ hret]
    exact hopen
  | opened _ _ _ hret =>
    rw [State.setClient_attempts, openConns_append _ hret]
    exact List.mem_append_left _ hopen
  | _ => exact hopen

/-- The clients represent a map, and what has been released is open. -/
def Recorded (s : RecordedState C) : Prop :=
  (∃ place, Represents s.base place) ∧ ∀ c, ∀ conn ∈ s.released c, conn ∈ openConns s.base.attempts

variable {s s' : RecordedState C}

/-- The record grows by a connection that its client holds. -/
theorem RecordedState.record_open {place : ConnPtr → Place C} (hrep : Represents s.base place)
    (hopen : ∀ c, ∀ conn ∈ s.released c, conn ∈ openConns s.base.attempts) (label : Label C) (c : C)
    {conn : ConnPtr} (hconn : conn ∈ s.record label c) : conn ∈ openConns s.base.attempts := by
  cases label with
  | relConn c' wake =>
    rw [RecordedState.record] at hconn
    by_cases hc : c = c'
    · subst hc
      rw [Function.update_self, List.mem_append, Option.mem_toList] at hconn
      rcases hconn with hheld | hbefore
      · have hplace := (hrep.held conn c).mp hheld
        exact (hrep.exists_iff conn).mpr (by simp [hplace])
      · exact hopen c conn hbefore
    · rw [Function.update_of_ne hc] at hconn
      exact hopen c conn hconn
  | getDBConn c' attempt => exact hopen c conn hconn
  | spurious c' => exact hopen c conn hconn

/-- A step of the clients. -/
theorem Recorded.call (h : Recorded s) {label : Label C} (hstep : RecordedStep s (.call label) s') :
    Recorded s' := by
  obtain ⟨⟨place, hrep⟩, hopen⟩ := h
  obtain ⟨hvalid, hnext⟩ := hstep
  obtain ⟨base, hbase, rfl⟩ := Option.map_eq_some_iff.mp hnext
  have heffect : Effect s.base label base := .of_step ⟨hvalid, hbase⟩
  exact ⟨hrep.step heffect, fun c conn hconn =>
    heffect.openConns_subset (RecordedState.record_open hrep hopen label c hconn)⟩

/-- A repeated release is of a connection that the client has released before. -/
theorem RecordedStep.again_cases {c : C} {conn : ConnPtr} {wake : C → Bool}
    (hstep : RecordedStep s (.again c conn wake) s') :
    (Label.relConn c wake).Valid s.base ∧ conn ∈ s.released c ∧
      s' = { s with base := s.base.relConnAgain conn wake } := by
  obtain ⟨hvalid, hnext⟩ := hstep
  obtain ⟨⟨hreleased, -⟩, heq⟩ := Option.ite_none_right_eq_some.mp hnext
  exact ⟨hvalid, hreleased, (Option.some.inj heq).symm⟩

/-- What a repeated release does, in a state of a run without harm so far. -/
theorem Recorded.again (h : Recorded s) {c : C} {conn : ConnPtr} {wake : C → Bool}
    (hstep : RecordedStep s (.again c conn wake) s') :
    (SameOwnership s.base s'.base ↔ NotTaken s (.again c conn wake)) ∧
      (Unshared s'.base ↔ NotTaken s (.again c conn wake)) := by
  obtain ⟨⟨place, hrep⟩, hopen⟩ := h
  obtain ⟨hvalid, hreleased, rfl⟩ := hstep.again_cases
  exact hrep.relConnAgain_iff (hopen c conn hreleased) hvalid.1

/-- A repeated release of a connection that nobody holds. -/
theorem Recorded.again_notTaken (h : Recorded s) {c : C} {conn : ConnPtr} {wake : C → Bool}
    (hstep : RecordedStep s (.again c conn wake) s') (hcond : NotTaken s (.again c conn wake)) :
    Recorded s' := by
  obtain ⟨⟨place, hrep⟩, hopen⟩ := h
  obtain ⟨hvalid, hreleased, rfl⟩ := hstep.again_cases
  have hmem := hrep.free_of_not_held (hopen c conn hreleased) hcond
  exact ⟨⟨place, hrep.relConnAgain hmem hvalid.1⟩, hopen⟩

/-- Runs whose repeated releases are all of connections that nobody holds. -/
theorem Reachable.recorded {maxConn : ℤ}
    (h : Transition.Reachable (RecordedInitial maxConn) (Transition.Restrict RecordedStep NotTaken) s) :
    Recorded s := by
  refine Transition.Reachable.invariant (P := Recorded) (fun s hs => ?_) (fun s label s' hs hstep => ?_) h
  · exact ⟨represents_initial hs.1, fun c conn hconn => by simp [hs.2] at hconn⟩
  · cases label with
    | call label => exact hs.call hstep.1
    | again c conn wake => exact hs.again_notTaken hstep.1 hstep.2

/-- In every run whose repeated releases are all of connections that nobody holds, no connection is
shared. A repeated release leaves every connection where it is if nobody holds the one released, and
otherwise that one is shared. -/
theorem unshared_of_notTaken {maxConn : ℤ}
    (h : Transition.Reachable (RecordedInitial maxConn) (Transition.Restrict RecordedStep NotTaken) s) :
    Unshared s.base ∧ ∀ c conn wake s', RecordedStep s (.again c conn wake) s' →
      (SameOwnership s.base s'.base ↔ NotTaken s (.again c conn wake)) ∧
        (Unshared s'.base ↔ NotTaken s (.again c conn wake)) := by
  have hrec := Reachable.recorded h
  refine ⟨?_, fun c conn wake s' => hrec.again⟩
  obtain ⟨⟨place, hrep⟩, -⟩ := hrec
  exact hrep.unshared

/-- One connection on the free list, and nothing released. -/
def oneFree (maxConn : ℤ) : RecordedState (Fin 3) :=
  ⟨⟨⟨1, maxConn, [some 8]⟩, fun _ => .idle, [⟨8, 0⟩]⟩, fun _ => []⟩

/-- A pool with one free connection is an initial one. -/
theorem recordedInitial_oneFree (maxConn : ℤ) : RecordedInitial maxConn (oneFree maxConn) :=
  ⟨⟨⟨8, 0⟩, _, rfl, rfl⟩, rfl⟩

/-- A connection is released twice before another client gets it. -/
theorem unshared_of_notTaken_run : ∃ s : RecordedState (Fin 3), s.base.client 1 = .holding (some 8) ∧
    s.base.pool.mFreeList = [] ∧ 8 ∈ s.released 0 ∧
      (Unshared s.base ∧ ∀ c conn wake s', RecordedStep s (.again c conn wake) s' →
        (SameOwnership s.base s'.base ↔ NotTaken s (.again c conn wake)) ∧
          (Unshared s'.base ↔ NotTaken s (.again c conn wake))) := by
  let labels : List (RecordedLabel (Fin 3)) := [.call (.getDBConn 0 ⟨16, 0⟩),
    .call (.relConn 0 fun _ => false), .again 0 8 fun _ => false, .call (.getDBConn 1 ⟨16, 0⟩)]
  have hrun : (Transition.replay (Transition.guard NotTaken RecordedState.check) (oneFree 1) labels).map
      (fun s => (s.base.client 1, s.base.pool.mFreeList, s.released 0)) =
        some (.holding (some 8), [], [8]) := by decide
  obtain ⟨s, hrun, hs⟩ := Option.map_eq_some_iff.mp hrun
  simp only [Prod.mk.injEq] at hs
  obtain ⟨hone, hlist, hreleased⟩ := hs
  exact ⟨s, hone, hlist, hreleased ▸ List.mem_singleton_self 8, unshared_of_notTaken
    (Transition.Reachable.replay_guard (fun s _ _ => s.step_of_check) (.init (recordedInitial_oneFree 1)) hrun)⟩

/-- A connection is released, got by another client and released again: a third client gets it too. -/
theorem two_holders_after_again : ∃ s : RecordedState (Fin 3),
    Transition.Reachable (RecordedInitial 1) RecordedStep s ∧ s.base.client 1 = .holding (some 8) ∧
      s.base.client 2 = .holding (some 8) ∧ ¬ Unshared s.base := by
  let labels : List (RecordedLabel (Fin 3)) := [.call (.getDBConn 0 ⟨16, 0⟩),
    .call (.relConn 0 fun _ => false), .call (.getDBConn 1 ⟨16, 0⟩), .again 0 8 fun _ => false,
    .call (.getDBConn 2 ⟨16, 0⟩)]
  have hrun : (Transition.replay RecordedState.check (oneFree 1) labels).map
      (fun s => (s.base.client 1, s.base.client 2)) = some (.holding (some 8), .holding (some 8)) := by decide
  obtain ⟨s, hrun, hs⟩ := Option.map_eq_some_iff.mp hrun
  obtain ⟨hone, htwo⟩ := Prod.mk.inj hs
  have hreach : Transition.Reachable (RecordedInitial 1) RecordedStep s :=
    Transition.Reachable.replay (fun s _ _ => s.step_of_check) (.init (recordedInitial_oneFree 1)) hrun
  exact ⟨s, hreach, hone, htwo, fun hshared => absurd (hshared.unique 8 1 2 hone htwo) (by decide)⟩

end CppProject.DBPool
