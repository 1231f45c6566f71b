import CppProject.Reactor.Batches

/-!
# A registration that fails

`RegisterEventHandle` inserts into `ep_events`, and `regist` sets the remembered descriptor and the
status of the handle, before `epoll_ctl` is called. When `epoll_ctl` fails nothing of this is taken
back. So a failed registration leaves the reactor as it was exactly if it had nothing to insert
and nothing to set.
-/

namespace CppProject.Reactor

namespace State

variable {s s' : State} {ptr : HandlePtr} {handle : EventHandle} {event : ℕ} {ret : ℤ}

/-- What `regist` passes to `epoll_ctl` for a handle. -/
def epollOp (handle : EventHandle) : EpollOp := if handle.status = 1 then .mod else .add

/-- Adding and modifying both leave the events of the call in the epoll set. -/
theorem epollCtl_epollOp (kernel : Kernel) (handle : EventHandle) (fd : Fd) (events : ℕ) (ret : ℤ) :
    kernel.epollCtl (epollOp handle) fd events ret = if ret < 0 then kernel
      else { kernel with epoll := Function.update kernel.epoll fd (some events) } := by
  by_cases hadded : handle.status = 1
  · simp [epollOp, hadded, Kernel.epollCtl]
  · simp [epollOp, hadded, Kernel.epollCtl]

/-- The events `regist` asks for. -/
def epollEvents (event : ℕ) : ℕ := if event &&& eventAccept ≠ 0 ∨ event &&& eventRecv ≠ 0 then epollIn else 0

/-- The state after `RegisterEventHandle`, where `epoll_ctl` returned `ret`. -/
def registered (s : State) (ptr : HandlePtr) (handle : EventHandle) (event : ℕ) (ret : ℤ) : State where
  epEvents := if (s.epEvents handle.fd).isSome then s.epEvents else Function.update s.epEvents handle.fd (some ptr)
  socketfd := if event &&& eventAccept ≠ 0 then handle.fd else s.socketfd
  heap := Function.update s.heap ptr (some { handle with status := 1 })
  kernel := s.kernel.epollCtl (epollOp handle) handle.fd (epollEvents event) ret
  createdFor := s.createdFor

/-- Nothing has been registered yet. -/
def Fresh (s : State) : Prop := (∀ fd, s.epEvents fd = none) ∧ s.socketfd = 0

/-- Everything `RegisterEventHandle` does. -/
theorem registerEventHandle_eq (hhandle : s.heap ptr = some handle) :
    s.registerEventHandle ptr event ret = some (if ret < 0 then -1 else 0, s.registered ptr handle event ret) := by
  obtain ⟨fd, status⟩ := handle
  rw [registerEventHandle, hhandle, Option.bind_some]
  cases hentry : s.epEvents fd with
  | none =>
    by_cases hadded : status = 1
    · simp [regist, registered, epollOp, epollEvents, hhandle, hentry, hadded]
    · simp [regist, registered, epollOp, epollEvents, hhandle, hentry, hadded]
  | some _ =>
    by_cases hadded : status = 1
    · simp [regist, registered, epollOp, epollEvents, hhandle, hentry, hadded]
    · simp [regist, registered, epollOp, epollEvents, hhandle, hentry, hadded]

/-- The reactor, the handle and the demultiplexer are as before the call, and if the call asked to
add the descriptor, so does the next on this handle. -/
structure Unchanged (s : State) (ptr : HandlePtr) (s' : State) : Prop where
  epEvents : s'.epEvents = s.epEvents
  status : (s'.heap ptr).map EventHandle.status = (s.heap ptr).map EventHandle.status
  socketfd : s'.socketfd = s.socketfd
  retry : (s.heap ptr).map epollOp = some .add → (s'.heap ptr).map epollOp = some .add

/-- Nothing was there for the call to insert or to set. -/
structure Settled (s : State) (handle : EventHandle) (event : ℕ) : Prop where
  entry : (s.epEvents handle.fd).isSome
  status : handle.status = 1
  socketfd : event &&& eventAccept ≠ 0 → s.socketfd = handle.fd

/-- The table stays exactly if the descriptor has an entry. -/
theorem registered_epEvents_eq_iff :
    (s.registered ptr handle event ret).epEvents = s.epEvents ↔ (s.epEvents handle.fd).isSome := by
  rw [registered]
  by_cases hentry : (s.epEvents handle.fd).isSome
  · simp [hentry]
  · refine iff_of_false (fun hsame => hentry ?_) hentry
    have hfd := congrFun hsame handle.fd
    simp only [if_neg hentry, Function.update_self] at hfd
    rw [← hfd]
    rfl

/-- A registration that fails leaves everything as it was if and only if it found the handle added and
its descriptor filed and remembered. -/
theorem unchanged_iff_settled (hhandle : s.heap ptr = some handle)
    (hfail : s.registerEventHandle ptr event ret = some (-1, s')) :
    Unchanged s ptr s' ↔ Settled s handle event := by
  rw [registerEventHandle_eq hhandle, Option.some.injEq, Prod.mk.injEq] at hfail
  obtain ⟨-, rfl⟩ := hfail
  constructor
  · intro h
    refine ⟨registered_epEvents_eq_iff.mp h.epEvents, ?_, fun haccept => ?_⟩
    · have hstatus := h.status
      simp only [registered, Function.update_self, hhandle, Option.map_some, Option.some.injEq] at hstatus
      exact hstatus.symm
    · have hsocketfd := h.socketfd
      simp only [registered, if_pos haccept] at hsocketfd
      exact hsocketfd.symm
  · intro ⟨hentry, hstatus, hsocketfd⟩
    refine ⟨registered_epEvents_eq_iff.mpr hentry, ?_, ?_, fun hadd => ?_⟩
    · simp [registered, hhandle, hstatus]
    · rw [registered]
      by_cases haccept : event &&& eventAccept ≠ 0
      · simp only [if_pos haccept, hsocketfd haccept]
      · simp only [if_neg haccept]
    · rw [hhandle, Option.map_some, epollOp, if_pos hstatus] at hadd
      exact nomatch Option.some.inj hadd

/-- A reactor with a new handle at 64 for descriptor 3. -/
def withHandle : State := (new ⟨fun fd => if fd = 3 then some 0 else none, fun _ => none, 1⟩).newHandle 64 3

/-- Registering the listening handle once more, without success. -/
theorem unchanged_iff_settled_twice : ∃ s s' : State,
    withHandle.registerEventHandle 64 eventAccept 0 = some (0, s) ∧
      s.registerEventHandle 64 eventAccept (-1) = some (-1, s') ∧ Settled s ⟨3, 1⟩ eventAccept ∧
        (Unchanged s 64 s' ↔ Settled s ⟨3, 1⟩ eventAccept) := by
  have hfirst : withHandle.heap 64 = some ⟨3, 0⟩ := rfl
  have hhandle : (withHandle.registered 64 ⟨3, 0⟩ eventAccept 0).heap 64 = some ⟨3, 1⟩ := rfl
  have hfail : (withHandle.registered 64 ⟨3, 0⟩ eventAccept 0).registerEventHandle 64 eventAccept (-1) =
      some (-1, _) := registerEventHandle_eq hhandle
  exact ⟨_, _, registerEventHandle_eq hfirst, hfail, ⟨rfl, rfl, fun _ => rfl⟩, unchanged_iff_settled hhandle hfail⟩

/-- A new handle stays in the table and counts as added after the failure: the next registration asks
to modify a descriptor that was never added. -/
theorem not_unchanged_new_handle : ∃ s' : State,
    withHandle.registerEventHandle 64 eventRecv (-1) = some (-1, s') ∧ withHandle.epEvents 3 = none ∧
      s'.epEvents 3 = some 64 ∧ (s'.kernel.epoll 3).isNone ∧
        (withHandle.heap 64).map epollOp = some .add ∧ (s'.heap 64).map epollOp = some .mod ∧
          ¬ Unchanged withHandle 64 s' := by
  have hhandle : withHandle.heap 64 = some ⟨3, 0⟩ := rfl
  refine ⟨_, registerEventHandle_eq hhandle, rfl, rfl, rfl, rfl, rfl, fun h => ?_⟩
  exact nomatch h.status

end State

end CppProject.Reactor
