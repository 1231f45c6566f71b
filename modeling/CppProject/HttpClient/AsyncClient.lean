import CppProject.HttpClient.SendRequest
import CppProject.Lib.Transition

/-!
# The asynchronous client

`async_http_client_request` and `thread_client_callback` of `async_http.c` as one transition system. Any
number of calls may be in progress, each taking its steps one by one; the callback thread handles the
events of one `epoll_wait` after another, again in single steps. The kernel chooses descriptors and
addresses among those not in use, and which sockets it reports; memory returned by `malloc` holds arbitrary
bytes, and `hostname` is never written.

Beside the program's own data the state records which request each descriptor and each `ep_arg` was made for,
and what has happened to each request. No step reads these records.
-/

namespace CppProject.HttpClient

open CString

variable {C : Type*}

/-- Descriptors. -/
abbrev Fd := ℕ

/-- Addresses of `ep_arg` records. -/
abbrev Ptr := ℕ

/-- The number of a call of `async_http_client_request`. -/
abbrev RequestId := ℕ

/-- `BUFFER_SIZE`. -/
def bufferSize : ℕ := 4096

/-- The length of the array `hostname` of an `ep_arg`. -/
def hostnameSize : ℕ := 1024

/-- The length of the array `events`. -/
def maxEvents : ℕ := 1024

/-- `struct ep_arg`, with the request it was allocated for. -/
structure EpArg (C : Type*) where
  sockfd : Fd
  hostname : Block
  cb : C
  owner : RequestId

/-- How far a call of `async_http_client_request` has come. -/
inductive Stage
  | entered
  | opened (sockfd : Fd)
  | connected (sockfd : Fd)
  | allocated (sockfd : Fd) (eparg : Ptr)

/-- A call of `async_http_client_request` that has not returned. -/
structure Call (C : Type*) where
  hostname : List UInt8
  source : List UInt8
  cb : C
  stage : Stage

/-- A request for which `async_http_client_request` returns zero, with the bytes that `malloc` left in the
`hostname` of its record. -/
structure Request (C : Type*) where
  id : RequestId
  hostname : List UInt8
  cb : C
  sockfd : Fd
  eparg : Ptr
  memory : Block

/-- What the callback thread has done for a request. -/
inductive Event (C : Type*)
  | called (cb : C) (hostname result : Option (List UInt8))
  | deregistered
  | closed
  | freed

/-- Where the callback thread is in the body of its inner loop. -/
inductive Phase
  | start
  | received (sockfd : Fd) (buffer : Block)
  | called (sockfd : Fd)
  | deregistered (sockfd : Fd)
  | closed

/-- The descriptors, the epoll set and the heap; the calls in progress; the events that the callback thread
has still to handle, the current one first. -/
structure State (C : Type*) where
  fds : Fd → Option RequestId
  epoll : Fd → Option Ptr
  heap : Ptr → Option (EpArg C)
  calls : RequestId → Option (Call C)
  fresh : RequestId
  events : List Ptr
  phase : Phase
  accepted : List (Request C)
  reported : List RequestId
  log : RequestId → List (Event C)

/-- `async_client_init()`. -/
def State.init : State C where
  fds := fun _ => none
  epoll := fun _ => none
  heap := fun _ => none
  calls := fun _ => none
  fresh := 0
  events := []
  phase := .start
  accepted := []
  reported := []
  log := fun _ => []

/-- The steps of a call; `reject` is the return of `-1` after any of the calls that may fail. -/
inductive RequestLabel
  | reject
  | socket (sockfd : Fd)
  | connect
  | malloc (eparg : Ptr) (memory : Block)
  | add

/-- The steps of the callback thread at an event. -/
inductive EventLabel
  | recv (bytes : List UInt8)
  | callback
  | del
  | close
  | free

/-- The steps of the system. -/
inductive Label (C : Type*)
  | call (hostname source : List UInt8) (cb : C)
  | request (id : RequestId) (label : RequestLabel)
  | wait (ready : List Fd)
  | event (label : EventLabel)

/-- `char buffer[BUFFER_SIZE] = {0}`, filled by `recv`; no bytes stand for the end of the file or an error. -/
def recvBuffer (bytes : List UInt8) : Option Block := write (List.replicate bufferSize 0) 0 bytes

namespace State

/-- Put a call in progress at a stage. -/
def setStage (s : State C) (id : RequestId) (c : Call C) (stage : Stage) : State C :=
  { s with calls := Function.update s.calls id (some { c with stage := stage }) }

/-- A call returns. -/
def endCall (s : State C) (id : RequestId) : State C :=
  { s with calls := Function.update s.calls id none }

/-- Note what has happened to a request. -/
def note (s : State C) (owner : Option RequestId) (event : Event C) : State C :=
  match owner with
  | none => s
  | some id => { s with log := Function.update s.log id (s.log id ++ [event]) }

/-- One step of a call of `async_http_client_request`. -/
def requestStep (s : State C) (id : RequestId) (c : Call C) : RequestLabel → Option (State C)
  | .reject => some (s.endCall id)
  | .socket sockfd => match c.stage with
    | .entered => if s.fds sockfd = none then
        some ({ s with fds := Function.update s.fds sockfd (some id) }.setStage id c (.opened sockfd))
      else none
    | _ => none
  -- `connect`, and the request text is put in a buffer and sent
  | .connect => match c.stage with
    | .opened sockfd =>
      (write (List.replicate bufferSize 0) 0 (requestText c.source c.hostname ++ [0])).map fun _ =>
        s.setStage id c (.connected sockfd)
    | _ => none
  -- `malloc`, and `sockfd` and `cb` are written
  | .malloc eparg memory => match c.stage with
    | .connected sockfd => if s.heap eparg = none ∧ memory.length = hostnameSize then
        some ({ s with heap := Function.update s.heap eparg (some ⟨sockfd, memory, c.cb, id⟩) }.setStage id c
          (.allocated sockfd eparg))
      else none
    | _ => none
  -- `epoll_ctl(ctx->epfd, EPOLL_CTL_ADD, sockfd, &ev)`, and the call returns zero
  | .add => match c.stage with
    | .allocated sockfd eparg => (s.heap eparg).bind fun arg => if s.epoll sockfd = none then
        some ({ s with
          epoll := Function.update s.epoll sockfd (some eparg)
          accepted := ⟨id, c.hostname, c.cb, sockfd, eparg, arg.hostname⟩ :: s.accepted }.endCall id)
      else none
    | _ => none

/-- One step of `thread_client_callback` in the body of its inner loop, at an event. -/
def eventStep (s : State C) (data : Ptr) (rest : List Ptr) : EventLabel → Option (State C)
  | .recv bytes => match s.phase with
    | .start => (s.heap data).bind fun arg => (recvBuffer bytes).map fun buffer =>
        { s with phase := .received arg.sockfd buffer }
    | _ => none
  | .callback => match s.phase with
    | .received sockfd buffer => (s.heap data).map fun arg =>
        { s with phase := .called sockfd }.note (some arg.owner)
          (.called arg.cb (string arg.hostname) (string buffer))
    | _ => none
  | .del => match s.phase with
    | .called sockfd =>
      some ({ s with epoll := Function.update s.epoll sockfd none, phase := .deregistered sockfd }.note
        ((s.epoll sockfd).bind fun _ => s.fds sockfd) .deregistered)
    | _ => none
  | .close => match s.phase with
    | .deregistered sockfd =>
      some ({ s with
        fds := Function.update s.fds sockfd none
        epoll := Function.update s.epoll sockfd none
        phase := .closed }.note (s.fds sockfd) .closed)
    | _ => none
  | .free => match s.phase with
    | .closed => (s.heap data).map fun arg =>
        { s with heap := Function.update s.heap data none, events := rest, phase := .start }.note
          (some arg.owner) .freed
    | _ => none

/-- One step of the system; `epoll_wait` reports sockets of the epoll set, each at most once. -/
def next (s : State C) : Label C → Option (State C)
  | .call hostname source cb => some { s with
      calls := Function.update s.calls s.fresh (some ⟨hostname, source, cb, .entered⟩)
      fresh := s.fresh + 1 }
  | .request id label => (s.calls id).bind fun c => s.requestStep id c label
  | .wait ready =>
    if s.events = [] ∧ ready.Nodup ∧ ready.length ≤ maxEvents ∧ ∀ fd ∈ ready, (s.epoll fd).isSome then
      some { s with events := ready.filterMap s.epoll, reported := ready.filterMap s.fds ++ s.reported }
    else none
  | .event label => match s.events with
    | [] => none
    | data :: rest => s.eventStep data rest label

end State

/-- One step of the system. -/
def Step (s : State C) (label : Label C) (s' : State C) : Prop := s.next label = some s'

end CppProject.HttpClient
