import CppProject.Reactor.Registration

/-!
# Removing a handle

`RemoveEventHandle` looks up the descriptor of the handle it is given and deletes the handle it
finds, which is another one if a handle for the same descriptor was registered before. Over any run
no handle is deleted twice, since the table holds live handles only, each under its own descriptor.
But a removal deletes its own handle and no other if and only if the table has no other handle under
that descriptor.
-/

namespace CppProject.Reactor

namespace State

/-! ## Calls on the reactor -/

/-- A reactor and the handles it has deleted. -/
structure Session where
  reactor : State
  deleted : List HandlePtr

/-- The calls, with the answers of `epoll_ctl`. -/
inductive Call
  | register (eventhandle : HandlePtr) (event : ℕ) (ret : ℤ)
  | remove (event : HandlePtr) (ret : ℤ)

/-- Execute a call on a handle that is not deleted. -/
def Call.exec (w : Session) : Call → Option Session
  | .register eventhandle event ret =>
    (w.reactor.registerEventHandle eventhandle event ret).map fun (_, s) => { w with reactor := s }
  | .remove event ret =>
    (w.reactor.removeEventHandle event ret).map fun (ev, s) => ⟨s, ev.toList ++ w.deleted⟩

/-- One call. -/
def Calls (w : Session) (call : Call) (w' : Session) : Prop := call.exec w = some w'

/-- A removal deletes no handle but its own, and leaves the entries of the others. -/
def RemovesOnly (w : Session) : Call → Session → Prop
  | .remove event _, w' => (∀ p ∈ w'.deleted, p ∈ w.deleted ∨ p = event) ∧
      ∀ fd p, p ≠ event → w.reactor.epEvents fd = some p → w'.reactor.epEvents fd = some p
  | .register _ _ _, _ => True

/-- The table has no other handle under the descriptor of the handle to be removed. -/
def OwnEntry (w : Session) : Call → Prop
  | .remove event _ => ∀ handle, w.reactor.heap event = some handle →
      ∀ p, w.reactor.getEventHandle handle.fd = some p → p = event
  | .register _ _ _ => True

variable {s s' : State} {w w' : Session} {ptr : HandlePtr} {handle : EventHandle} {event : ℕ} {ret : ℤ}

/-- The descriptor of a handle, if it is live. -/
def fdOf (s : State) (ptr : HandlePtr) : Option Fd := (s.heap ptr).map EventHandle.fd

/-- What `RegisterEventHandle` does to the table and the handles. -/
theorem registerEventHandle_spec (hhandle : s.heap ptr = some handle) {result : ℤ}
    (h : s.registerEventHandle ptr event ret = some (result, s')) :
    s'.epEvents = (if (s.epEvents handle.fd).isSome then s.epEvents
      else Function.update s.epEvents handle.fd (some ptr)) ∧ s'.fdOf = s.fdOf := by
  rw [registerEventHandle_eq hhandle, Option.some.injEq, Prod.mk.injEq] at h
  obtain ⟨-, rfl⟩ := h
  refine ⟨rfl, funext fun p => ?_⟩
  by_cases hp : p = ptr
  · simp [fdOf, registered, hp, hhandle]
  · simp [fdOf, registered, Function.update_of_ne hp]

/-- What `RemoveEventHandle` does to the table and the handles. -/
theorem removeEventHandle_spec (hhandle : s.heap ptr = some handle) {ev : Option HandlePtr}
    (h : s.removeEventHandle ptr ret = some (ev, s')) :
    ev = s.epEvents handle.fd ∧ s'.epEvents = Function.update s.epEvents handle.fd none ∧
      ∀ p, s'.fdOf p = if ev = some p then none else s.fdOf p := by
  obtain ⟨fd, status⟩ := handle
  have hremove : ∃ s₁, s.remove ptr ret = some s₁ ∧ s₁.epEvents = s.epEvents ∧ s₁.fdOf = s.fdOf := by
    rw [remove, hhandle, Option.map_some]
    by_cases hadded : status ≠ 1
    · exact ⟨s, by rw [if_pos hadded], rfl, rfl⟩
    · rw [if_neg hadded]
      refine ⟨_, rfl, rfl, funext fun p => ?_⟩
      by_cases hp : p = ptr
      · simp [fdOf, hp, hhandle]
      · simp [fdOf, Function.update_of_ne hp]
  obtain ⟨s₁, hs₁, htable, hfds⟩ := hremove
  have hfd : s₁.fdOf ptr = some fd := by
    rw [hfds, fdOf, hhandle]
    rfl
  obtain ⟨handle₁, hhandle₁, rfl⟩ := Option.map_eq_some_iff.mp hfd
  rw [removeEventHandle, hs₁, Option.bind_some, hhandle₁, Option.map_some, htable] at h
  cases hentry : s.epEvents handle₁.fd with
  | none =>
    simp only [hentry, Option.some.injEq, Prod.mk.injEq] at h
    obtain ⟨rfl, rfl⟩ := h
    refine ⟨rfl, ?_, fun p => by simp [hfds]⟩
    rw [htable, ← hentry, Function.update_eq_self]
  | some q =>
    simp only [hentry, Option.some.injEq, Prod.mk.injEq] at h
    obtain ⟨rfl, rfl⟩ := h
    refine ⟨rfl, rfl, fun p => ?_⟩
    by_cases hp : p = q
    · simp [fdOf, hp]
    · simp only [fdOf, Function.update_of_ne hp, Option.some.injEq, if_neg (Ne.symm hp)]
      exact congrFun hfds p

/-! ## Runs -/

/-- The table holds live handles under their own descriptors, and deleted handles stay deleted. -/
structure Live (w : Session) : Prop where
  entry : ∀ fd ptr, w.reactor.epEvents fd = some ptr → w.reactor.fdOf ptr = some fd
  deleted : ∀ ptr ∈ w.deleted, w.reactor.fdOf ptr = none
  once : w.deleted.Nodup

/-- A fresh reactor has nothing removed. -/
theorem Fresh.live (h : Fresh s) : Live ⟨s, []⟩ where
  entry := fun fd ptr hentry => by simp [h.1] at hentry
  deleted := fun ptr hptr => absurd hptr List.not_mem_nil
  once := List.nodup_nil

/-- What a registration does to a session. -/
theorem Calls.register_spec (hcall : Calls w (.register ptr event ret) w') :
    ∃ handle, w.reactor.heap ptr = some handle ∧ w'.deleted = w.deleted ∧
      w'.reactor.epEvents = (if (w.reactor.epEvents handle.fd).isSome then w.reactor.epEvents
        else Function.update w.reactor.epEvents handle.fd (some ptr)) ∧ w'.reactor.fdOf = w.reactor.fdOf := by
  obtain ⟨⟨result, s⟩, hout, rfl⟩ := Option.map_eq_some_iff.mp hcall
  obtain ⟨handle, hhandle, -⟩ := Option.bind_eq_some_iff.mp hout
  exact ⟨handle, hhandle, rfl, registerEventHandle_spec hhandle hout⟩

/-- What a removal does to a session. -/
theorem Calls.remove_spec (hcall : Calls w (.remove ptr ret) w') :
    ∃ handle, w.reactor.heap ptr = some handle ∧
      w'.deleted = (w.reactor.epEvents handle.fd).toList ++ w.deleted ∧
        w'.reactor.epEvents = Function.update w.reactor.epEvents handle.fd none ∧
          ∀ p, w'.reactor.fdOf p = if w.reactor.epEvents handle.fd = some p then none else w.reactor.fdOf p := by
  obtain ⟨⟨ev, s⟩, hout, rfl⟩ := Option.map_eq_some_iff.mp hcall
  obtain ⟨s₁, hremove, -⟩ := Option.bind_eq_some_iff.mp hout
  obtain ⟨handle, hhandle, -⟩ := Option.map_eq_some_iff.mp hremove
  obtain ⟨rfl, htable, hfds⟩ := removeEventHandle_spec hhandle hout
  exact ⟨handle, hhandle, rfl, htable, hfds⟩

/-- A registration keeps it so. -/
theorem Live.register (h : Live w) (hcall : Calls w (.register ptr event ret) w') : Live w' := by
  obtain ⟨handle, hhandle, hdeleted, htable, hfds⟩ := hcall.register_spec
  refine ⟨fun fd p hentry => ?_, fun p hp => ?_, hdeleted ▸ h.once⟩
  · rw [hfds]
    rw [htable] at hentry
    by_cases hfiled : (w.reactor.epEvents handle.fd).isSome
    · rw [if_pos hfiled] at hentry
      exact h.entry fd p hentry
    · rw [if_neg hfiled] at hentry
      by_cases hfd : fd = handle.fd
      · rw [hfd, Function.update_self, Option.some.injEq] at hentry
        rw [← hentry, hfd, fdOf, hhandle]
        rfl
      · rw [Function.update_of_ne hfd] at hentry
        exact h.entry fd p hentry
  · rw [hfds]
    exact h.deleted p (hdeleted ▸ hp)

/-- A removal keeps it so. -/
theorem Live.remove (h : Live w) (hcall : Calls w (.remove ptr ret) w') : Live w' := by
  obtain ⟨handle, hhandle, hdeleted, htable, hfds⟩ := hcall.remove_spec
  refine ⟨fun fd p hentry => ?_, fun p hp => ?_, ?_⟩
  · rw [htable] at hentry
    by_cases hfd : fd = handle.fd
    · simp [hfd] at hentry
    · rw [Function.update_of_ne hfd] at hentry
      have hp := h.entry fd p hentry
      have hne : w.reactor.epEvents handle.fd ≠ some p := fun hsame =>
        hfd (Option.some.inj (hp.symm.trans (h.entry _ p hsame)))
      rw [hfds, if_neg hne, hp]
  · rw [hfds]
    rw [hdeleted] at hp
    split
    · rfl
    · next hne => exact h.deleted p ((List.mem_append.mp hp).resolve_left fun hev => hne (Option.mem_toList.mp hev))
  · rw [hdeleted]
    cases hentry : w.reactor.epEvents handle.fd with
    | none => exact h.once
    | some p =>
      refine List.nodup_cons.mpr ⟨fun hp => ?_, h.once⟩
      exact nomatch (h.deleted p hp).symm.trans (h.entry _ p hentry)

/-- A call keeps this: it deletes only what the table held. -/
theorem Live.step (h : Live w) {call : Call} (hcall : Calls w call w') : Live w' := by
  cases call with
  | register => exact h.register hcall
  | remove => exact h.remove hcall

/-- A removal is exact if and only if it finds its own handle, or none. -/
theorem removesOnly_iff_ownEntry_step {call : Call} (hcall : Calls w call w') :
    RemovesOnly w call w' ↔ OwnEntry w call := by
  cases call with
  | register => exact iff_of_true trivial trivial
  | remove ptr ret =>
    obtain ⟨handle, hhandle, hdeleted, htable, -⟩ := hcall.remove_spec
    constructor
    · intro ⟨_, hentries⟩ handle' hhandle' p hp
      obtain rfl : handle = handle' := Option.some.inj (hhandle.symm.trans hhandle')
      by_contra hne
      have hkept := hentries handle.fd p hne hp
      simp [htable] at hkept
    · intro hown
      refine ⟨fun p hp => ?_, fun fd p hne hentry => ?_⟩
      · rcases List.mem_append.mp (hdeleted ▸ hp) with hev | hp
        · exact Or.inr (hown handle hhandle p (Option.mem_toList.mp hev))
        · exact Or.inl hp
      · have hfd : fd ≠ handle.fd := fun hsame => hne (hown handle hhandle p (hsame ▸ hentry))
        simpa [htable, Function.update_of_ne hfd] using hentry

/-- In a run of any calls, every removal deletes its own handle only and no handle is deleted twice, if
and only if at every removal the table has no other handle under the descriptor. -/
theorem run_removesOnly_iff_ownEntry (hfresh : Fresh s) {calls : List Call}
    (hrun : Transition.Run Calls ⟨s, []⟩ calls w) :
    Transition.Run (fun w call w' => Calls w call w' ∧ RemovesOnly w call w') ⟨s, []⟩ calls w ∧ w.deleted.Nodup ↔
      Transition.Run (Transition.Restrict Calls OwnEntry) ⟨s, []⟩ calls w := by
  have hlive : Live w := hrun.preserves (fun _ _ _ h => h.step) hfresh.live
  refine ⟨fun h => h.1.mono fun _ _ _ hcall => ⟨hcall.1, ?_⟩, fun h => ⟨h.mono fun _ _ _ hcall => ⟨hcall.1, ?_⟩,
    hlive.once⟩⟩
  · exact (removesOnly_iff_ownEntry_step hcall.1).mp hcall.2
  · exact (removesOnly_iff_ownEntry_step hcall.1).mpr hcall.2

/-! ## Two handles -/

/-- New handles at 64 and at 72, for two descriptors or for one. -/
def handles (first second : Fd) : State :=
  ((new ⟨fun _ => none, fun _ => none, 0⟩).newHandle 64 first).newHandle 72 second

/-- Handles of different descriptors. -/
theorem run_removesOnly_iff_ownEntry_two : ∃ w,
    Transition.Run Calls ⟨handles 5 6, []⟩ [.register 64 eventRecv 0, .register 72 eventRecv 0, .remove 64 0] w ∧
      w.deleted = [64] ∧ w.reactor.epEvents 6 = some 72 ∧
        (Transition.Run (fun w call w' => Calls w call w' ∧ RemovesOnly w call w') ⟨handles 5 6, []⟩
            [.register 64 eventRecv 0, .register 72 eventRecv 0, .remove 64 0] w ∧ w.deleted.Nodup ↔
          Transition.Run (Transition.Restrict Calls OwnEntry) ⟨handles 5 6, []⟩
            [.register 64 eventRecv 0, .register 72 eventRecv 0, .remove 64 0] w) := by
  have hrun : Transition.Run Calls ⟨handles 5 6, []⟩
      [.register 64 eventRecv 0, .register 72 eventRecv 0, .remove 64 0] _ := .cons rfl (.cons rfl (.cons rfl .nil))
  exact ⟨_, hrun, rfl, rfl, run_removesOnly_iff_ownEntry ⟨fun _ => rfl, rfl⟩ hrun⟩

/-- Two handles of one descriptor: removing the second deletes the first and its entry. -/
theorem not_removesOnly_same_fd : ∃ t w,
    Transition.Run Calls ⟨handles 5 5, []⟩ [.register 64 eventRecv 0, .register 72 eventRecv 0] t ∧
      Calls t (.remove 72 0) w ∧ t.reactor.epEvents 5 = some 64 ∧ w.deleted = [64] ∧
        w.reactor.epEvents 5 = none ∧ ¬ RemovesOnly t (.remove 72 0) w := by
  refine ⟨_, _, .cons rfl (.cons rfl .nil), rfl, rfl, rfl, rfl, fun h => ?_⟩
  exact absurd (h.1 64 List.mem_cons_self) (by decide)

end State

end CppProject.Reactor
