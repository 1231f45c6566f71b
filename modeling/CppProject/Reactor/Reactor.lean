import Mathlib.Data.Int.Notation
import Mathlib.Data.Nat.Notation
import Mathlib.Logic.Function.Basic

/-!
# The reactor and its demultiplexer

`Reactor`, `EpollDemultiplex` and `EventHandle` on one state: the map `ep_events`, the remembered
listening descriptor, the handles on the heap, and of the kernel which descriptors are open and
which are in the epoll set. Results of system calls are inputs. A function has no result if it
follows a pointer to no handle.

Each open descriptor has a connection number that is never used again, and `createdFor` records for
which connection a handle was created. No function of the source reads either.
-/

namespace CppProject.Reactor

/-- File descriptors. -/
abbrev Fd := ℤ

/-- Addresses of handles. -/
abbrev HandlePtr := ℕ

/-- Numbers of the connections, and of other open descriptors, in the order of their opening. -/
abbrev Conn := ℕ

/-- `Event_Accept` of `EventMask`. -/
def eventAccept : ℕ := 1

/-- `Event_Recv` of `EventMask`. -/
def eventRecv : ℕ := 2

/-- `EPOLLIN`. -/
def epollIn : ℕ := 1

/-- `EventHandle`. -/
structure EventHandle where
  fd : Fd
  status : ℤ

/-- Open descriptors, and the epoll set with the events asked for. -/
structure Kernel where
  opened : Fd → Option Conn
  epoll : Fd → Option ℕ
  nextConn : Conn

/-- The reactor with its demultiplexer, the handles and the kernel. -/
structure State where
  epEvents : Fd → Option HandlePtr
  socketfd : Fd
  heap : HandlePtr → Option EventHandle
  kernel : Kernel
  createdFor : HandlePtr → Option Conn

/-! ## System calls -/

/-- The operations of `epoll_ctl`. -/
inductive EpollOp
  | add
  | mod
  | del

/-- `epoll_ctl`, which returned `ret`. -/
def Kernel.epollCtl (kernel : Kernel) (op : EpollOp) (fd : Fd) (events : ℕ) (ret : ℤ) : Kernel :=
  if ret < 0 then kernel
  else match op with
    | .del => { kernel with epoll := Function.update kernel.epoll fd none }
    | _ => { kernel with epoll := Function.update kernel.epoll fd (some events) }

/-- `accept` opens a descriptor. -/
def Kernel.accept (kernel : Kernel) (clientfd : Fd) : Kernel :=
  { kernel with
    opened := Function.update kernel.opened clientfd (some kernel.nextConn)
    nextConn := kernel.nextConn + 1 }

/-- `close`, which also takes the descriptor out of the epoll set. -/
def Kernel.close (kernel : Kernel) (fd : Fd) : Kernel :=
  { kernel with
    opened := Function.update kernel.opened fd none
    epoll := Function.update kernel.epoll fd none }

namespace State

/-! ## `EpollDemultiplex` -/

/-- `EpollDemultiplex::regist`, where `epoll_ctl` returns `ret`. -/
def regist (s : State) (event : HandlePtr) (events : ℕ) (ret : ℤ) : Option (ℤ × State) :=
  (s.heap event).map fun handle =>
    let epEvents := if events &&& eventAccept ≠ 0 ∨ events &&& eventRecv ≠ 0 then epollIn else 0
    let (op, registered) : EpollOp × EventHandle :=
      if handle.status = 1 then (.mod, handle) else (.add, { handle with status := 1 })
    (if ret < 0 then -1 else 0,
      { s with
        socketfd := if events &&& eventAccept ≠ 0 then handle.fd else s.socketfd
        heap := Function.update s.heap event (some registered)
        kernel := s.kernel.epollCtl op handle.fd epEvents ret })

/-- `EpollDemultiplex::remove`, where `epoll_ctl` returns `ret`. -/
def remove (s : State) (event : HandlePtr) (ret : ℤ) : Option State :=
  (s.heap event).map fun handle =>
    if handle.status ≠ 1 then s
    else { s with
      heap := Function.update s.heap event (some { handle with status := 0 })
      kernel := s.kernel.epollCtl .del handle.fd 0 ret }

/-! ## `Reactor` -/

/-- `Reactor::GetEventHandle`. -/
def getEventHandle (s : State) (fd : Fd) : Option HandlePtr := s.epEvents fd

/-- `Reactor::RegisterEventHandle`, where `epoll_ctl` returns `ret`. -/
def registerEventHandle (s : State) (eventhandle : HandlePtr) (event : ℕ) (ret : ℤ) : Option (ℤ × State) :=
  (s.heap eventhandle).bind fun handle =>
    let s' := match s.epEvents handle.fd with
      | none => { s with epEvents := Function.update s.epEvents handle.fd (some eventhandle) }
      | some _ => s
    s'.regist eventhandle event ret

/-- `Reactor::RemoveEventHandle`, where `epoll_ctl` returns `ret`: the handle it deletes and the new
state. -/
def removeEventHandle (s : State) (event : HandlePtr) (ret : ℤ) : Option (Option HandlePtr × State) :=
  (s.remove event ret).bind fun s => (s.heap event).map fun handle =>
    match s.epEvents handle.fd with
    | none => (none, s)
    | some ev =>
      (some ev, { s with
        epEvents := Function.update s.epEvents handle.fd none
        heap := Function.update s.heap ev none })

/-! ## `EventHandle` -/

/-- `new EventHandle(fd)` at an unused address. -/
def newHandle (s : State) (ptr : HandlePtr) (fd : Fd) : State :=
  { s with
    heap := Function.update s.heap ptr (some ⟨fd, 0⟩)
    createdFor := Function.update s.createdFor ptr (s.kernel.opened fd) }

/-- What the system calls of a handler return if they are made, and the address `new` returns. -/
structure Answers where
  accept : Fd
  fcntl : ℤ
  new : HandlePtr
  epollCtl : ℤ
  recv : ℤ

/-- `EventHandle::HandAccept`. -/
def handAccept (s : State) (answers : Answers) : Option State :=
  if answers.accept = -1 then some s
  else
    let s := { s with kernel := s.kernel.accept answers.accept }
    if answers.fcntl < 0 then some s
    else ((s.newHandle answers.new answers.accept).registerEventHandle answers.new eventRecv
      answers.epollCtl).map Prod.snd

/-- `EventHandle::HandRecv`. -/
def handRecv (s : State) (fd : Fd) (answers : Answers) : State :=
  match s.getEventHandle fd with
  | none => s
  | some _ =>
    if answers.recv > 0 then s
    else if answers.recv = 0 then { s with kernel := s.kernel.close fd }
    else { s with kernel := s.kernel.close fd }

/-- An event that `epoll_wait` reports, and the answers to its handler. -/
structure Ready where
  fd : Fd
  events : ℕ
  answers : Answers

/-- The body of the loop of `EpollDemultiplex::wait_event`. `HandSend`, for `EPOLLOUT`, is empty. -/
def dispatch (s : State) (ready : Ready) : Option State :=
  match s.getEventHandle ready.fd with
  | none => some s
  | some event => (s.heap event).bind fun handle =>
    if ready.events &&& epollIn ≠ 0 then
      if s.socketfd = ready.fd then s.handAccept ready.answers
      else some (s.handRecv handle.fd ready.answers)
    else some s

end State

end CppProject.Reactor
