import CppProject.DBPool.Clients
import Mathlib.Data.Set.Card

/-!
# No wakeup of the connection pool is lost

A release appends at most one pointer and wakes at least one waiting client, and a woken client that
leaves the woken ones takes a pointer or has found the list empty. So while a client waits, the
woken clients are at least as many as the pointers on the free list. Clients that overtake a woken
one only make the list shorter.
-/

namespace CppProject.DBPool

variable {C : Type*} {s s' : State C}

/-- The clients that have left `Wait` and have not acquired the lock again. -/
def State.wokenClients (s : State C) : Set C := {c | s.client c = .woken}

/-- The woken clients, one by one. -/
theorem State.mem_wokenClients {c : C} : c ∈ s.wokenClients ↔ s.client c = .woken := Iff.rfl

/-- While a client waits, each pointer on the free list has a woken client of its own. -/
def WakeupsCover (s : State C) : Prop :=
  ∀ c, s.client c = .waiting → (s.pool.mFreeList.length : ℕ∞) ≤ s.wokenClients.encard

/-- With an empty free list there is nothing to cover. -/
theorem wakeupsCover_of_empty (h : s.pool.mFreeList = []) : WakeupsCover s := fun c _ => by
  rw [h]
  exact zero_le

/-- A release appends one pointer at most. -/
theorem relConn_length_le (pool : Pool) (conn : Option ConnPtr) :
    (relConn pool conn).mFreeList.length ≤ pool.mFreeList.length + 1 := by
  unfold relConn
  split
  · exact Nat.le_succ _
  · simp [Pool.pushBack]

variable [DecidableEq C]

/-- Moving a client takes no other one from the woken clients. -/
theorem State.wokenClients_subset_setClient (s : State C) (c : C) (phase : ClientPhase) :
    s.wokenClients ⊆ insert c (s.setClient c phase).wokenClients := fun c' hc' => by
  by_cases heq : c' = c
  · exact Set.mem_insert_iff.mpr (Or.inl heq)
  · refine Set.mem_insert_of_mem _ ?_
    rw [State.mem_wokenClients, State.setClient_client, Function.update_of_ne heq]
    exact hc'

/-- A client that waits after another one has moved was waiting before. -/
theorem State.waiting_of_setClient {c c' : C} {phase : ClientPhase} (hphase : phase ≠ .waiting)
    (h : (s.setClient c phase).client c' = .waiting) : s.client c' = .waiting := by
  rw [State.setClient_client] at h
  by_cases heq : c' = c
  · subst heq
    exact absurd ((Function.update_self c' phase s.client).symm.trans h) hphase
  · rwa [Function.update_of_ne heq] at h

/-- A client takes a pointer from the list, woken or not. -/
theorem WakeupsCover.pooled (h : WakeupsCover s) {c : C} {pconn : Option ConnPtr}
    {rest : List (Option ConnPtr)} (hlist : s.pool.mFreeList = pconn :: rest) :
    WakeupsCover ({ s with pool.mFreeList := rest }.setClient c (.holding pconn)) := by
  intro c' hc'
  have hcover := h c' (State.waiting_of_setClient (s := { s with pool.mFreeList := rest }) (by simp) hc')
  rw [hlist, List.length_cons, Nat.cast_add, Nat.cast_one] at hcover
  have hsub := State.wokenClients_subset_setClient { s with pool.mFreeList := rest } c (.holding pconn)
  have hle : (rest.length : ℕ∞) + 1 ≤
      ({ s with pool.mFreeList := rest }.setClient c (.holding pconn)).wokenClients.encard + 1 :=
    calc (rest.length : ℕ∞) + 1 ≤ s.wokenClients.encard := hcover
      _ ≤ _ := Set.encard_le_encard hsub
      _ ≤ _ := Set.encard_insert_le _ _
  exact (ENat.add_le_add_iff_right (by simp)).mp hle

/-- A release with its signal: while a client still waits, another one has been woken. -/
theorem WakeupsCover.released (h : WakeupsCover s) {c : C} {wake : C → Bool} {pconn : Option ConnPtr}
    (hc : s.client c = .holding pconn) (hvalid : (Label.relConn c wake).Valid s) :
    WakeupsCover (({ s with pool := relConn s.pool pconn }.wakeClients wake).setClient c .idle) := by
  intro c' hc'
  obtain ⟨hwaiting, hsome⟩ := hvalid
  have hwait : s.client c' = .waiting := by
    have hwoken := State.waiting_of_setClient (by simp) hc'
    rw [State.wakeClients_client] at hwoken
    split at hwoken
    · contradiction
    · exact hwoken
  obtain ⟨c₁, hc₁⟩ := hsome c' hwait
  -- the releasing client holds a pointer, so it is neither woken before nor by this signal
  have hne : ∀ c', (s.client c' = .woken ∨ s.client c' = .waiting) → c' ≠ c := by
    rintro c' (hphase | hphase) rfl <;> rw [hc] at hphase <;> contradiction
  have hnew : c₁ ∉ s.wokenClients := fun hwoken => by
    rw [State.mem_wokenClients, hwaiting c₁ hc₁] at hwoken
    contradiction
  have hsub : insert c₁ s.wokenClients ⊆
      (({ s with pool := relConn s.pool pconn }.wakeClients wake).setClient c .idle).wokenClients := by
    refine Set.insert_subset ?_ fun c₂ hc₂ => ?_
    · rw [State.mem_wokenClients, State.setClient_client,
        Function.update_of_ne (hne c₁ (Or.inr (hwaiting c₁ hc₁))), State.wakeClients_client, if_pos hc₁]
    · rw [State.mem_wokenClients, State.setClient_client, Function.update_of_ne (hne c₂ (Or.inl hc₂)),
        State.wakeClients_client]
      split
      · rfl
      · exact hc₂
  calc ((relConn s.pool pconn).mFreeList.length : ℕ∞) ≤ s.pool.mFreeList.length + 1 :=
        mod_cast relConn_length_le s.pool pconn
    _ ≤ s.wokenClients.encard + 1 := add_le_add_left (h c' hwait) 1
    _ = (insert c₁ s.wokenClients).encard := (Set.encard_insert_of_notMem hnew).symm
    _ ≤ _ := Set.encard_le_encard hsub

/-- Every step keeps it so. -/
theorem WakeupsCover.step {label : Label C} (h : WakeupsCover s) (heffect : Effect s label s') :
    WakeupsCover s' := by
  cases heffect with
  | pooled _ hlist => exact h.pooled hlist
  | wait _ hlist => exact wakeupsCover_of_empty hlist
  | openFailed _ hlist => exact wakeupsCover_of_empty hlist
  | opened _ hlist => exact wakeupsCover_of_empty hlist
  | released hc hvalid => exact h.released hc hvalid
  | @spurious c hc =>
    intro c' hc'
    refine (h c hc).trans (Set.encard_le_encard fun c₁ hc₁ => ?_)
    by_cases heq : c₁ = c
    · rw [State.mem_wokenClients, State.setClient_client, heq, Function.update_self]
    · rw [State.mem_wokenClients, State.setClient_client, Function.update_of_ne heq]
      exact hc₁

omit [DecidableEq C] in
/-- Nobody waits after `Init`. -/
theorem wakeupsCover_initial {maxConn : ℤ} (h : Initial maxConn s) : WakeupsCover s := by
  obtain ⟨attempt, pool, -, rfl⟩ := h
  exact fun c hc => by contradiction

/-- It holds in every reachable state. -/
theorem Reachable.wakeupsCover {maxConn : ℤ} (h : Reachable maxConn s) : WakeupsCover s :=
  Transition.Reachable.invariant (P := WakeupsCover) (fun _ => wakeupsCover_initial)
    (fun _ _ _ hs hstep => hs.step (.of_step hstep)) h

/-- In every reachable state in which a client waits, the woken clients are at least as many as the
free connections; so when a connection is free, one of them has yet to look at the list. -/
theorem no_connection_left_asleep {maxConn : ℤ} (h : Reachable maxConn s) :
    (∀ c, s.client c = .waiting → (s.pool.mFreeList.length : ℕ∞) ≤ s.wokenClients.encard) ∧
      (s.pool.mFreeList ≠ [] → ∀ c, s.client c = .waiting → ∃ c', s.client c' = .woken) := by
  refine ⟨h.wakeupsCover, fun hfree c hc => ?_⟩
  have hpos : (0 : ℕ∞) < s.pool.mFreeList.length := mod_cast List.length_pos_iff.mpr hfree
  exact Set.encard_pos.mp (hpos.trans_le (h.wakeupsCover c hc))

/-- A run of three clients with one connection, up to a release that wakes one of two waiting clients. -/
theorem no_connection_left_asleep_run : ∃ s : State (Fin 3), s.pool.mFreeList = [some 8] ∧
    s.client 1 = .woken ∧ s.client 2 = .waiting ∧
      ((∀ c, s.client c = .waiting → (s.pool.mFreeList.length : ℕ∞) ≤ s.wokenClients.encard) ∧
        (s.pool.mFreeList ≠ [] → ∀ c, s.client c = .waiting → ∃ c', s.client c' = .woken)) := by
  let labels : List (Label (Fin 3)) := [.getDBConn 0 ⟨16, 0⟩, .getDBConn 1 ⟨16, 0⟩,
    .getDBConn 2 ⟨16, 0⟩, .relConn 0 fun c => c = 1]
  have hinit : Initial 1 (⟨⟨1, 1, [some 8]⟩, fun _ => .idle, [⟨8, 0⟩]⟩ : State (Fin 3)) := ⟨⟨8, 0⟩, _, rfl, rfl⟩
  have hrun : (Transition.replay (fun s label => s.check label)
      (⟨⟨1, 1, [some 8]⟩, fun _ => .idle, [⟨8, 0⟩]⟩ : State (Fin 3)) labels).map
        (fun s => (s.pool.mFreeList, s.client 1, s.client 2)) =
      some ([some 8], .woken, .waiting) := by decide
  obtain ⟨s, hrun, hs⟩ := Option.map_eq_some_iff.mp hrun
  obtain ⟨hlist, hs⟩ := Prod.mk.inj hs
  obtain ⟨hone, htwo⟩ := Prod.mk.inj hs
  have hreach : Reachable 1 s :=
    Transition.Reachable.replay (fun s _ _ => s.step_of_check) (.init hinit) hrun
  exact ⟨s, hlist, hone, htwo, no_connection_left_asleep hreach⟩

end CppProject.DBPool
