import CppProject.Lib.Transition
import CppProject.Reactor.Reactor

/-!
# Batches of events

What `epoll_wait` may report and what the kernel may answer, and the runs of a reactor that has
registered one listening handle. Registering with `epoll_ctl` and setting flags with `fcntl`
succeed. `accept` may return any descriptor that is not open, and so one that has been closed before.
-/

namespace CppProject.Reactor

namespace State

/-- The answers that are possible in a state: `accept` fails or opens a descriptor that is not open,
and `new` returns an unused address. -/
structure Answers.Valid (s : State) (answers : Answers) : Prop where
  accept : answers.accept = -1 ∨ 0 ≤ answers.accept ∧ s.kernel.opened answers.accept = none
  fcntl : 0 ≤ answers.fcntl
  new : s.heap answers.new = none
  epollCtl : 0 ≤ answers.epollCtl

/-- One round of the loop of `wait_event`. -/
def Dispatch (s : State) (ready : Ready) (s' : State) : Prop :=
  ready.answers.Valid s ∧ s.dispatch ready = some s'

/-- `MAX_EPOLL_ITEM`. -/
def maxEpollItem : ℕ := 10240

/-- What `epoll_wait` may report: each descriptor of the epoll set at most once. -/
structure Possible (s : State) (batch : List Ready) : Prop where
  length : batch.length ≤ maxEpollItem
  distinct : (batch.map Ready.fd).Nodup
  listed : ∀ ready ∈ batch, (s.kernel.epoll ready.fd).isSome

/-- `EpollDemultiplex::wait_event`, with the events that `epoll_wait` reports. -/
def WaitEvent (s : State) (batch : List Ready) (s' : State) : Prop :=
  Possible s batch ∧ Transition.Run Dispatch s batch s'

/-- A reactor without handles. -/
def new (kernel : Kernel) : State where
  epEvents := fun _ => none
  socketfd := 0
  heap := fun _ => none
  kernel := kernel
  createdFor := fun _ => none

/-- A reactor that has registered a handle for `lisfd` and nothing else. -/
def Started (lisfd : Fd) (s : State) : Prop :=
  ∃ kernel ptr, (kernel.opened lisfd).isSome ∧ (∀ fd, kernel.epoll fd = none) ∧
    (∀ fd conn, kernel.opened fd = some conn → conn < kernel.nextConn) ∧
    ((new kernel).newHandle ptr lisfd).registerEventHandle ptr eventAccept 0 = some (0, s)

instance (s : State) (answers : Answers) : Decidable (answers.Valid s) :=
  decidable_of_iff ((answers.accept = -1 ∨ 0 ≤ answers.accept ∧ s.kernel.opened answers.accept = none) ∧
      0 ≤ answers.fcntl ∧ s.heap answers.new = none ∧ 0 ≤ answers.epollCtl)
    ⟨fun h => ⟨h.1, h.2.1, h.2.2.1, h.2.2.2⟩, fun h => ⟨h.accept, h.fcntl, h.new, h.epollCtl⟩⟩

instance (s : State) (batch : List Ready) : Decidable (Possible s batch) :=
  decidable_of_iff (batch.length ≤ maxEpollItem ∧ (batch.map Ready.fd).Nodup ∧
      ∀ ready ∈ batch, (s.kernel.epoll ready.fd).isSome)
    ⟨fun h => ⟨h.1, h.2.1, h.2.2⟩, fun h => ⟨h.length, h.distinct, h.listed⟩⟩

/-- Handle one event after checking its answers. -/
def checkDispatch (s : State) (ready : Ready) : Option State :=
  if ready.answers.Valid s then s.dispatch ready else none

/-- Handle a batch after checking that it is possible. -/
def checkWaitEvent (s : State) (batch : List Ready) : Option State :=
  if Possible s batch then Transition.replay checkDispatch s batch else none

/-- A checked batch is a batch. -/
theorem waitEvent_of_check {s s' : State} {batch : List Ready} (h : s.checkWaitEvent batch = some s') :
    WaitEvent s batch s' := by
  rw [checkWaitEvent] at h
  obtain ⟨hpossible, hrun⟩ := Option.ite_none_right_eq_some.mp h
  refine ⟨hpossible, Transition.Run.replay (fun s ready s' hready => ?_) hrun⟩
  rw [checkDispatch] at hready
  exact Option.ite_none_right_eq_some.mp hready

/-! ## What a round can do -/

/-- The table files handles under their descriptors. -/
def Keyed (s : State) : Prop := ∀ fd ptr, s.epEvents fd = some ptr → ∃ status, s.heap ptr = some ⟨fd, status⟩

/-- After a connection has been accepted and its handle registered. -/
def accepted (s : State) (answers : Answers) : State where
  epEvents := match s.epEvents answers.accept with
    | none => Function.update s.epEvents answers.accept (some answers.new)
    | some _ => s.epEvents
  socketfd := s.socketfd
  heap := Function.update s.heap answers.new (some ⟨answers.accept, 1⟩)
  kernel :=
    { opened := Function.update s.kernel.opened answers.accept (some s.kernel.nextConn)
      epoll := Function.update s.kernel.epoll answers.accept (some epollIn)
      nextConn := s.kernel.nextConn + 1 }
  createdFor := Function.update s.createdFor answers.new (some s.kernel.nextConn)

/-- A connection that is accepted. -/
theorem handAccept_eq {s : State} {answers : Answers} (haccept : answers.accept ≠ -1)
    (hvalid : answers.Valid s) : s.handAccept answers = some (s.accepted answers) := by
  have hfcntl : ¬ answers.fcntl < 0 := Int.not_lt.mpr hvalid.fcntl
  have hctl : ¬ answers.epollCtl < 0 := Int.not_lt.mpr hvalid.epollCtl
  cases hentry : s.epEvents answers.accept with
  | none =>
    simp [handAccept, haccept, hfcntl, newHandle, registerEventHandle, regist, Kernel.accept,
      Kernel.epollCtl, hctl, accepted, hentry, eventRecv, eventAccept]
  | some ptr =>
    simp [handAccept, haccept, hfcntl, newHandle, registerEventHandle, regist, Kernel.accept,
      Kernel.epollCtl, hctl, accepted, hentry, eventRecv, eventAccept]

/-- Everything a round can do. -/
inductive Effect (s : State) (ready : Ready) : State → Prop
  | unchanged : ¬ (s.epEvents ready.fd ≠ none ∧ s.socketfd ≠ ready.fd ∧ ready.events &&& epollIn ≠ 0 ∧
      ready.answers.recv ≤ 0) → Effect s ready s
  | accepted : s.socketfd = ready.fd → ready.answers.accept ≠ -1 →
      Effect s ready (s.accepted ready.answers)
  | closed : s.epEvents ready.fd ≠ none → s.socketfd ≠ ready.fd → ready.events &&& epollIn ≠ 0 →
      ready.answers.recv ≤ 0 → Effect s ready { s with kernel := s.kernel.close ready.fd }

/-- Every round has one of the listed effects. -/
theorem Effect.of_dispatch {s s' : State} {ready : Ready} (h : Keyed s) (hdispatch : Dispatch s ready s') :
    Effect s ready s' := by
  obtain ⟨hvalid, hdispatch⟩ := hdispatch
  rw [dispatch] at hdispatch
  cases hentry : s.epEvents ready.fd with
  | none =>
    simp only [getEventHandle, hentry, Option.some.injEq] at hdispatch
    exact hdispatch ▸ .unchanged (by simp [hentry])
  | some event =>
    obtain ⟨status, hhandle⟩ := h ready.fd event hentry
    simp only [getEventHandle, hentry, hhandle, Option.bind_some] at hdispatch
    by_cases hin : ready.events &&& epollIn ≠ 0
    · rw [if_pos hin] at hdispatch
      by_cases hlisten : s.socketfd = ready.fd
      · rw [if_pos hlisten] at hdispatch
        by_cases haccept : ready.answers.accept = -1
        · rw [handAccept, if_pos haccept, Option.some.injEq] at hdispatch
          exact hdispatch ▸ .unchanged (by simp [hlisten])
        · rw [handAccept_eq haccept hvalid, Option.some.injEq] at hdispatch
          exact hdispatch ▸ .accepted hlisten haccept
      · rw [if_neg hlisten, Option.some.injEq, handRecv, getEventHandle, hentry] at hdispatch
        by_cases hdata : ready.answers.recv > 0
        · simp only [hdata, if_true] at hdispatch
          exact hdispatch ▸ .unchanged fun hclose => absurd hclose.2.2.2 (Int.not_le.mpr hdata)
        · simp only [hdata, if_false, ite_self] at hdispatch
          exact hdispatch ▸ .closed (by simp [hentry]) hlisten hin (Int.not_lt.mp hdata)
    · rw [if_neg hin, Option.some.injEq] at hdispatch
      exact hdispatch ▸ .unchanged fun hclose => hin hclose.2.2.1

end State

end CppProject.Reactor
