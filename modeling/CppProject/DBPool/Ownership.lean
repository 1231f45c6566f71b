import CppProject.DBPool.Clients

/-!
# Who has a connection

Abstractly a pool is a map that says where each connection is: not opened, free, or held by one
client. The map leaves no room for a connection in two places. Every reachable state of the
clients represents such a map, with the free list as the set of free connections without repetition,
and with the counter as the number of connections that have been opened.
-/

namespace CppProject.DBPool

variable {C : Type*} {s s' : State C}

/-- Where a connection is. -/
inductive Place (C : Type*)
  | unopened
  | free
  | held (c : C)

/-- The connection a client has got and not released. -/
def ClientPhase.conn? : ClientPhase → Option ConnPtr
  | .holding pconn => pconn
  | _ => none

/-- A client has a connection exactly if it holds one. -/
@[simp] theorem ClientPhase.conn?_eq_some {phase : ClientPhase} {conn : ConnPtr} :
    phase.conn? = some conn ↔ phase = .holding (some conn) := by
  cases phase <;> simp [ClientPhase.conn?]

/-- The clients hold the connections that the map gives them. -/
def Holds (client : C → ClientPhase) (place : ConnPtr → Place C) : Prop :=
  ∀ conn c, (client c).conn? = some conn ↔ place conn = .held c

namespace Holds

variable {client client' : C → ClientPhase} {place : ConnPtr → Place C} {c : C} {phase : ClientPhase}

/-- Only the connections that clients hold matter. -/
theorem congr (h : Holds client place) (hconn : ∀ c, (client' c).conn? = (client c).conn?) :
    Holds client' place := fun conn c => by rw [hconn c, h conn c]

/-- One holder at most. -/
theorem unique (h : Holds client place) {conn : ConnPtr} {c c' : C}
    (hc : (client c).conn? = some conn) (hc' : (client c').conn? = some conn) : c = c' := by
  have heq := ((h conn c).mp hc).symm.trans ((h conn c').mp hc')
  injection heq

variable [DecidableEq C]

/-- A client moves, with what it has. -/
theorem moved (h : Holds client place) (hphase : phase.conn? = (client c).conn?) :
    Holds (Function.update client c phase) place :=
  h.congr fun c' => by
    by_cases hc : c' = c
    · rw [hc, Function.update_self, hphase]
    · rw [Function.update_of_ne hc]

/-- A client without a connection takes one that nobody holds. -/
theorem taken (h : Holds client place) {conn : ConnPtr} (hnone : (client c).conn? = none)
    (hfree : ∀ c', place conn ≠ .held c') (hphase : phase.conn? = some conn) :
    Holds (Function.update client c phase) (Function.update place conn (.held c)) := by
  intro conn' c'
  by_cases hconn : conn' = conn
  · subst hconn
    rw [Function.update_self]
    by_cases hc : c' = c
    · simp [hc, hphase]
    · rw [Function.update_of_ne hc, h conn' c']
      exact ⟨fun hheld => absurd hheld (hfree c'), fun hheld => absurd (by injection hheld) (Ne.symm hc)⟩
  · rw [Function.update_of_ne hconn, ← h conn' c']
    by_cases hc : c' = c
    · simp [hc, hphase, hnone, Ne.symm hconn]
    · rw [Function.update_of_ne hc]

/-- A client gives up its connection. -/
theorem given (h : Holds client place) {conn : ConnPtr} (hsome : (client c).conn? = some conn)
    (hphase : phase.conn? = none) :
    Holds (Function.update client c phase) (Function.update place conn .free) := by
  intro conn' c'
  by_cases hc : c' = c
  · subst hc
    rw [Function.update_self, hphase]
    by_cases hconn : conn' = conn
    · simp [hconn]
    · rw [Function.update_of_ne hconn, ← h conn' c', hsome]
      simp [Ne.symm hconn]
  · rw [Function.update_of_ne hc]
    by_cases hconn : conn' = conn
    · subst hconn
      rw [Function.update_self]
      exact ⟨fun hother => absurd (h.unique hother hsome) hc, fun hheld => by contradiction⟩
    · rw [Function.update_of_ne hconn, h conn' c']

end Holds

/-- The clients and the pool agree with the map, and the counter with the number of connections. -/
structure Represents (s : State C) (place : ConnPtr → Place C) : Prop where
  held : Holds s.client place
  free : ∀ conn, some conn ∈ s.pool.mFreeList ↔ place conn = .free
  exists_iff : ∀ conn, conn ∈ openConns s.attempts ↔ place conn ≠ .unopened
  freeNodup : s.pool.mFreeList.Nodup
  openedNodup : (openConns s.attempts).Nodup
  count : s.pool.mDbCurConnCnt = (openConns s.attempts).length
  bound : s.pool.mDbCurConnCnt ≤ max 1 s.pool.mDbMaxConnCnt

/-- One connection after `Init`, on the free list. -/
theorem represents_initial {maxConn : ℤ} (h : Initial maxConn s) : ∃ place, Represents s place := by
  obtain ⟨attempt, pool, hinit, rfl⟩ := h
  rw [Pool.init] at hinit
  split at hinit
  · next hret => exact absurd (Prod.mk.inj hinit).1 hret
  · next hret =>
    obtain ⟨-, rfl⟩ := Prod.mk.inj hinit
    have hopened : openConns [attempt] = [attempt.conn] :=
      by simp [openConns, not_not.mp hret]
    classical
    refine ⟨Function.update (fun _ => .unopened) attempt.conn .free, fun conn c => ?_, fun conn => ?_,
      fun conn => ?_, ?_, ?_, ?_, ?_⟩
    · by_cases hconn : conn = attempt.conn <;> simp [hconn]
    · by_cases hconn : conn = attempt.conn <;> simp [hconn, Pool.pushBack, Pool.new]
    · rw [hopened]
      by_cases hconn : conn = attempt.conn <;> simp [hconn]
    · simp [Pool.pushBack, Pool.new]
    · rw [hopened]
      exact List.nodup_singleton _
    · rw [hopened]
      rfl
    · exact le_max_left _ _

namespace Represents

variable [DecidableEq C] {place : ConnPtr → Place C} {label : Label C}

omit [DecidableEq C] in
/-- An open connection changes its place. -/
theorem opened_moved (h : Represents s place) {conn : ConnPtr} {target : Place C}
    (hconn : place conn ≠ .unopened) (htarget : target ≠ .unopened) (conn' : ConnPtr) :
    conn' ∈ openConns s.attempts ↔ Function.update place conn target conn' ≠ .unopened := by
  by_cases heq : conn' = conn
  · subst heq
    rw [Function.update_self]
    exact iff_of_true ((h.exists_iff conn').mpr hconn) htarget
  · rw [Function.update_of_ne heq]
    exact h.exists_iff conn'

omit [DecidableEq C] in
/-- Waking a client does not change what it has. -/
theorem wake (h : Represents s place) {wake : C → Bool} (hwake : ∀ c, wake c = true → s.client c = .waiting) :
    Represents (s.wakeClients wake) place where
  __ := h
  held := h.held.congr fun c => by
    rw [State.wakeClients_client]
    split
    · next hc => rw [hwake c hc]; rfl
    · rfl

/-- `RelConn`, as a client calls it. -/
theorem release (h : Represents s place) {c : C} {pconn : Option ConnPtr} (hc : s.client c = .holding pconn) :
    ∃ place', Represents ({ s with pool := relConn s.pool pconn }.setClient c .idle) place' := by
  have hnodup := relConn_nodup h.freeNodup pconn
  have hcount := (relConn_mDbCurConnCnt s.pool pconn).trans h.count
  have hbound : (relConn s.pool pconn).mDbCurConnCnt ≤ max 1 (relConn s.pool pconn).mDbMaxConnCnt := by
    rw [relConn_mDbCurConnCnt, relConn_mDbMaxConnCnt]
    exact h.bound
  have hconn? : (s.client c).conn? = pconn := by rw [hc]; rfl
  cases pconn with
  | none =>
    refine ⟨place, h.held.moved hconn?.symm, fun conn => ?_, h.exists_iff, hnodup, h.openedNodup, hcount, hbound⟩
    rw [← h.free conn, State.setClient_pool, mem_relConn]
    simp
  | some conn =>
    have hheld : place conn = .held c := (h.held conn c).mp hconn?
    refine ⟨Function.update place conn .free, h.held.given hconn? rfl, fun conn' => ?_,
      h.opened_moved (by simp [hheld]) (by simp), hnodup, h.openedNodup, hcount, hbound⟩
    rw [State.setClient_pool, mem_relConn]
    by_cases heq : conn' = conn
    · simp [heq]
    · rw [Function.update_of_ne heq, ← h.free conn', Option.some.injEq]
      exact or_iff_left heq

/-- Every step moves connections between places. -/
theorem step (h : Represents s place) (heffect : Effect s label s') : ∃ place', Represents s' place' := by
  have hnone : ∀ {c}, (s.client c = .idle ∨ s.client c = .woken) → (s.client c).conn? = none := by
    rintro c (hc | hc) <;> rw [hc] <;> rfl
  cases heffect with
  | @pooled c attempt pconn rest hc hlist =>
    have hnodup := List.nodup_cons.mp (hlist ▸ h.freeNodup)
    cases pconn with
    | none =>
      refine ⟨place, h.held.moved (hnone hc).symm, fun conn => ?_, h.exists_iff, hnodup.2, h.openedNodup, h.count,
        h.bound⟩
      rw [← h.free conn, hlist]
      simp
    | some conn =>
      have hfree : place conn = .free := (h.free conn).mp (by simp [hlist])
      refine ⟨Function.update place conn (.held c), h.held.taken (hnone hc) (by simp [hfree]) rfl,
        fun conn' => ?_, h.opened_moved (by simp [hfree]) (by simp), hnodup.2, h.openedNodup, h.count, h.bound⟩
      by_cases hconn : conn' = conn
      · subst hconn
        simpa using hnodup.1
      · rw [Function.update_of_ne hconn, ← h.free conn', hlist]
        simp [hconn]
  | wait hc =>
    exact ⟨place, h.held.moved (hnone hc).symm, h.free, h.exists_iff, h.freeNodup, h.openedNodup, h.count, h.bound⟩
  | openFailed hc _ _ hret =>
    have hopened := openConns_append_failed s.attempts hret
    refine ⟨place, h.held.moved (hnone hc).symm, h.free, fun conn => ?_, h.freeNodup, ?_, ?_, h.bound⟩
    · exact hopened ▸ h.exists_iff conn
    · exact hopened ▸ h.openedNodup
    · exact hopened ▸ h.count
  | @opened c attempt hc hlist hroom hret hfresh =>
    have hopened : openConns (s.attempts ++ [attempt]) = _ := openConns_append _ hret
    have hplace : place attempt.conn = .unopened := not_not.mp (mt (h.exists_iff _).mpr hfresh)
    refine ⟨Function.update place attempt.conn (.held c),
      h.held.taken (hnone hc) (by simp [hplace]) rfl, fun conn => ?_, fun conn => ?_, h.freeNodup, ?_, ?_, ?_⟩
    · by_cases hconn : conn = attempt.conn
      · subst hconn
        simp [hlist]
      · rw [Function.update_of_ne hconn]
        exact h.free conn
    · rw [State.setClient_attempts, hopened, List.mem_append, List.mem_singleton]
      by_cases hconn : conn = attempt.conn
      · simp [hconn]
      · rw [Function.update_of_ne hconn, ← h.exists_iff conn]
        exact or_iff_left hconn
    · rw [State.setClient_attempts, hopened, List.nodup_append_comm]
      exact List.nodup_cons.mpr ⟨hfresh, h.openedNodup⟩
    · rw [State.setClient_attempts, hopened]
      simp [h.count]
    · exact (Int.add_one_le_of_lt hroom).trans (le_max_right _ _)
  | @released c wake pconn hc hvalid =>
    have hasleep : wake c ≠ true := fun hwake => by
      have hwaiting := hvalid.1 c hwake
      simp [hc] at hwaiting
    refine (h.wake hvalid.1).release (c := c) ?_
    rw [State.wakeClients_client, if_neg hasleep]
    exact hc
  | spurious hc =>
    exact ⟨place, h.held.moved (by rw [hc]; rfl), h.free, h.exists_iff, h.freeNodup, h.openedNodup,
      h.count, h.bound⟩

end Represents

/-- Every reachable state represents a map. -/
theorem Reachable.represents [DecidableEq C] {maxConn : ℤ} (h : Reachable maxConn s) :
    ∃ place, Represents s place := by
  refine Transition.Reachable.invariant (P := fun s => ∃ place, Represents s place)
    (fun s => represents_initial) (fun s label s' hs hstep => ?_) h
  obtain ⟨place, hrep⟩ := hs
  exact hrep.step (.of_step hstep)

/-- Each connection is in one place, and the counter is the number of connections, within its bound. -/
structure Exclusive (s : State C) : Prop where
  conn : ∀ conn ∈ openConns s.attempts,
    (s.pool.mFreeList.count (some conn) = 1 ∧ ∀ c, s.client c ≠ .holding (some conn)) ∨
      (some conn ∉ s.pool.mFreeList ∧ ∃! c, s.client c = .holding (some conn))
  distinct : (openConns s.attempts).Nodup
  count : s.pool.mDbCurConnCnt = (openConns s.attempts).length
  bound : s.pool.mDbCurConnCnt ≤ max 1 s.pool.mDbMaxConnCnt

/-- Connections that have one place each are exclusive. -/
theorem Represents.exclusive {place : ConnPtr → Place C} (h : Represents s place) : Exclusive s where
  conn := fun conn hconn => by
    have hheld : ∀ c, s.client c = .holding (some conn) ↔ place conn = .held c := fun c =>
      ClientPhase.conn?_eq_some.symm.trans (h.held conn c)
    cases hplace : place conn with
    | unopened => exact absurd hplace ((h.exists_iff conn).mp hconn)
    | free =>
      refine Or.inl ⟨List.count_eq_one_of_mem h.freeNodup ((h.free conn).mpr hplace), fun c hc => ?_⟩
      exact absurd ((hheld c).mp hc) (by simp [hplace])
    | held c =>
      refine Or.inr ⟨fun hfree => absurd ((h.free conn).mp hfree) (by simp [hplace]), c,
        (hheld c).mpr hplace, fun c' hc' => ?_⟩
      have heq := ((hheld c').mp hc').symm.trans hplace
      injection heq
  distinct := h.openedNodup
  count := h.count
  bound := h.bound

/-- A step that fails to open a connection changes nothing in the pool. -/
theorem Effect.pool_eq_of_openFailed [DecidableEq C] {label : Label C} (h : Effect s label s')
    {attempt : Attempt} (hattempts : s'.attempts = s.attempts ++ [attempt]) (hret : attempt.ret ≠ 0) :
    s'.pool = s.pool := by
  have hnone : s.attempts ≠ s.attempts ++ [attempt] := fun heq => by
    simpa using congrArg List.length heq
  cases h with
  | openFailed => rfl
  | opened _ _ _ hok =>
    obtain rfl := List.singleton_injective (List.append_cancel_left hattempts)
    exact absurd hok hret
  | _ => exact absurd hattempts hnone

/-- In every reachable state the connections are exclusive, and a `DBConn::Init` that fails in
`GetDBConn` leaves the pool as it was. -/
theorem exclusive_of_reachable [DecidableEq C] {maxConn : ℤ} (h : Reachable maxConn s) :
    Exclusive s ∧ ∀ label s' attempt, Step s label s' → s'.attempts = s.attempts ++ [attempt] →
      attempt.ret ≠ 0 → s'.pool = s.pool := by
  obtain ⟨place, hrep⟩ := h.represents
  exact ⟨hrep.exclusive, fun label s' attempt hstep => (Effect.of_step hstep).pool_eq_of_openFailed⟩

/-- A run of three clients with two connections: the second client gets a null pointer from a failed
`DBConn::Init`, the third opens a connection, and the first has released its own. -/
theorem exclusive_of_reachable_run : ∃ s : State (Fin 3), s.pool.mFreeList = [some 8] ∧
    s.client 1 = .holding none ∧ s.client 2 = .holding (some 16) ∧
      (Exclusive s ∧ ∀ label s' attempt, Step s label s' → s'.attempts = s.attempts ++ [attempt] →
        attempt.ret ≠ 0 → s'.pool = s.pool) := by
  let labels : List (Label (Fin 3)) := [.getDBConn 0 ⟨16, 0⟩, .getDBConn 1 ⟨16, -1⟩,
    .getDBConn 2 ⟨16, 0⟩, .relConn 0 fun _ => false]
  have hinit : Initial 2 (⟨⟨1, 2, [some 8]⟩, fun _ => .idle, [⟨8, 0⟩]⟩ : State (Fin 3)) := ⟨⟨8, 0⟩, _, rfl, rfl⟩
  have hrun : (Transition.replay (fun s label => s.check label)
      (⟨⟨1, 2, [some 8]⟩, fun _ => .idle, [⟨8, 0⟩]⟩ : State (Fin 3)) labels).map
        (fun s => (s.pool.mFreeList, s.client 1, s.client 2)) =
      some ([some 8], .holding none, .holding (some 16)) := by decide
  obtain ⟨s, hrun, hs⟩ := Option.map_eq_some_iff.mp hrun
  obtain ⟨hlist, hs⟩ := Prod.mk.inj hs
  obtain ⟨hone, htwo⟩ := Prod.mk.inj hs
  have hreach : Reachable 2 s :=
    Transition.Reachable.replay (fun s _ _ => s.step_of_check) (.init hinit) hrun
  exact ⟨s, hlist, hone, htwo, exclusive_of_reachable hreach⟩

end CppProject.DBPool
