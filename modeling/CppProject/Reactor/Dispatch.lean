import CppProject.Reactor.Rounds
import Mathlib.Data.List.Induction
import Mathlib.Data.List.Nodup

/-!
# Which handler an event reaches

`wait_event` does not know how a descriptor was registered. It compares the descriptor with the one
that `regist` remembered last for `Event_Accept`, which is 0 before any. So events reach the handlers
they were registered for if and only if at most one descriptor was registered with `Event_Accept`,
and, when there is none, descriptor 0 was not registered at all. Any call of a handler may fail in the batches.
-/

namespace CppProject.Reactor

namespace State

open Transition

variable {s s' : State} {ready : Ready}

/-! ## Handlers -/

/-- The handlers that read from a descriptor. -/
inductive Handler
  | accept
  | recv
  deriving DecidableEq

/-- A call of the handler on a handle of the heap. -/
def Handler.run (s : State) (event : HandlePtr) (answers : Answers) : Handler → Option State
  | .accept => (s.heap event).bind fun _ => s.handAccept answers
  | .recv => (s.heap event).map fun handle => s.handRecv handle.fd answers

/-- For an event on the descriptor the loop body of `wait_event` is a call of the handler on the handle in the table,
whatever the system calls answer. -/
structure Invokes (s : State) (fd : Fd) (events : ℕ) (handler : Handler) (event : HandlePtr) : Prop where
  handle : s.getEventHandle fd = some event
  dispatch : ∀ answers, s.dispatch ⟨fd, events, answers⟩ = handler.run s event answers

section Invokes

variable {fd : Fd} {events : ℕ} {handler : Handler} {event other : HandlePtr}

/-- The remembered descriptor decides which handler is called. -/
theorem Keyed.invokes (h : Keyed s) (hentry : s.getEventHandle fd = some event) (hin : events &&& epollIn ≠ 0) :
    s.Invokes fd events (if s.socketfd = fd then .accept else .recv) event := by
  obtain ⟨status, hhandle⟩ := h fd event hentry
  refine ⟨hentry, fun answers => ?_⟩
  simp only [State.dispatch, hentry, hhandle, Option.bind_some, if_pos hin]
  split
  · rw [Handler.run, hhandle, Option.bind_some]
  · rw [Handler.run, hhandle, Option.map_some]

/-- `HandRecv` closes the descriptor at end of file, where `HandAccept` without a connection leaves it in the epoll
set; so a call of the one is no call of the other. -/
theorem Keyed.not_invokes_recv (h : Keyed s) (hlisted : (s.kernel.epoll fd).isSome)
    (haccept : s.Invokes fd events .accept event) : ¬ s.Invokes fd events .recv other := fun hrecv => by
  obtain rfl : event = other := Option.some.inj (haccept.handle.symm.trans hrecv.handle)
  obtain ⟨status, hhandle⟩ := h fd event haccept.handle
  have hsame := (haccept.dispatch ⟨-1, 0, 0, 0, 0⟩).symm.trans (hrecv.dispatch ⟨-1, 0, 0, 0, 0⟩)
  rw [Handler.run, Handler.run, hhandle, Option.bind_some, Option.map_some, handAccept, if_pos rfl, handRecv,
    haccept.handle] at hsame
  have hepoll : s.kernel.epoll fd = none := by
    have hkernel := congrArg (fun s : State => s.kernel.epoll fd) (Option.some.inj hsame)
    simpa [Kernel.close] using hkernel
  rw [hepoll] at hlisted
  contradiction

/-- At most one handler is called. -/
theorem Invokes.unique {handler' : Handler} (h : s.Invokes fd events handler event)
    (h' : s.Invokes fd events handler' other) (hkeyed : Keyed s) (hlisted : (s.kernel.epoll fd).isSome) :
    handler = handler' := by
  cases handler with
  | accept =>
    cases handler' with
    | accept => rfl
    | recv => exact absurd h' (hkeyed.not_invokes_recv hlisted h)
  | recv =>
    cases handler' with
    | accept => exact absurd h (hkeyed.not_invokes_recv hlisted h')
    | recv => rfl

/-- Exactly one handler is called, and on one handle. -/
theorem Keyed.invokes_iff (h : Keyed s) (hlisted : (s.kernel.epoll fd).isSome)
    (hentry : s.getEventHandle fd = some event) (hin : events &&& epollIn ≠ 0) :
    s.Invokes fd events handler other ↔ handler = (if s.socketfd = fd then .accept else .recv) ∧ other = event := by
  have hinvokes := h.invokes hentry hin
  constructor
  · intro hother
    exact ⟨hother.unique hinvokes h hlisted, Option.some.inj (hother.handle.symm.trans hentry)⟩
  · rintro ⟨rfl, rfl⟩
    exact hinvokes

end Invokes

/-! ## Registrations -/

/-- A call of `RegisterEventHandle`, with the descriptor of its handle. -/
structure Registration where
  handle : HandlePtr
  fd : Fd
  event : ℕ

/-- A successful call for one kind of event. -/
def Register (s : State) (r : Registration) (s' : State) : Prop :=
  (r.event = eventAccept ∨ r.event = eventRecv) ∧ (∃ status, s.heap r.handle = some ⟨r.fd, status⟩) ∧
    ∃ ret, s.registerEventHandle r.handle r.event ret = some (0, s')

/-- The handler the registration is for. -/
def Registration.handler (r : Registration) : Handler := if r.event = eventAccept then .accept else .recv

/-- The descriptor remembered after some registrations. -/
def remembered (regs : List Registration) : Fd :=
  regs.foldl (fun fd r => if r.event = eventAccept then r.fd else fd) 0

variable {r : Registration} {regs done : List Registration}

/-- What the registrations have done. -/
structure Registered (regs : List Registration) (s : State) : Prop where
  entry : ∀ fd ptr, s.epEvents fd = some ptr ↔ ∃ r ∈ regs, r.fd = fd ∧ r.handle = ptr
  socketfd : s.socketfd = remembered regs
  keyed : Keyed s
  listed : ∀ r ∈ regs, (s.kernel.epoll r.fd).isSome

/-- Before any registration. -/
theorem Fresh.registered (h : Fresh s) : Registered [] s where
  entry := fun fd ptr => by simp [h.1]
  socketfd := h.2
  keyed := fun fd ptr hentry => by simp [h.1] at hentry
  listed := fun r hr => absurd hr List.not_mem_nil

section Registered

variable {ptr : HandlePtr} {handle : EventHandle} {event : ℕ} {ret : ℤ}

/-- A handle is entered for a descriptor that has none. -/
theorem registered_epEvents_of_free (hfree : s.epEvents handle.fd = none) :
    (s.registered ptr handle event ret).epEvents = Function.update s.epEvents handle.fd (some ptr) :=
  if_neg (by simp [hfree])

/-- A handle with a descriptor of its own is filed under it. -/
theorem Keyed.registered (h : Keyed s) (hhandle : s.heap ptr = some handle) (hfree : s.epEvents handle.fd = none) :
    Keyed (s.registered ptr handle event ret) := by
  intro fd p hentry
  rw [registered_epEvents_of_free hfree] at hentry
  by_cases hfd : fd = handle.fd
  · subst hfd
    rw [Function.update_self, Option.some.injEq] at hentry
    exact ⟨1, by simp [State.registered, ← hentry]⟩
  · rw [Function.update_of_ne hfd] at hentry
    obtain ⟨status, hkeyed⟩ := h fd p hentry
    have hne : p ≠ ptr := fun heq => by
      rw [heq, hhandle, Option.some.injEq] at hkeyed
      exact hfd (congrArg EventHandle.fd hkeyed).symm
    exact ⟨status, (Function.update_of_ne hne _ _).trans hkeyed⟩

/-- The epoll set after a registration that succeeds. -/
theorem isSome_epoll_registered (hret : ¬ ret < 0) {fd : Fd} (hfd : (s.kernel.epoll fd).isSome ∨ fd = handle.fd) :
    ((s.registered ptr handle event ret).kernel.epoll fd).isSome := by
  have hkernel : (s.registered ptr handle event ret).kernel =
      { s.kernel with epoll := Function.update s.kernel.epoll handle.fd (some (epollEvents event)) } :=
    (epollCtl_epollOp _ _ _ _ _).trans (if_neg hret)
  rw [hkernel]
  by_cases heq : fd = handle.fd
  · simp [heq]
  · simpa [Function.update_of_ne heq] using hfd.resolve_right heq

end Registered

/-- One more registration, on another descriptor. -/
theorem Registered.step (h : Registered done s) (hr : r.fd ∉ done.map Registration.fd)
    (hregister : Register s r s') : Registered (done ++ [r]) s' := by
  obtain ⟨hevent, ⟨status, hhandle⟩, ret, hcall⟩ := hregister
  rw [registerEventHandle_eq hhandle, Option.some.injEq, Prod.mk.injEq] at hcall
  obtain ⟨hret, rfl⟩ := hcall
  have hret : ¬ ret < 0 := fun hneg => by simp [hneg] at hret
  have hfree : s.epEvents r.fd = none := Option.eq_none_iff_forall_ne_some.mpr fun ptr hptr => by
    obtain ⟨q, hq, hfd, -⟩ := (h.entry r.fd ptr).mp hptr
    exact hr (hfd ▸ List.mem_map_of_mem hq)
  refine ⟨fun fd ptr => ?_, ?_, h.keyed.registered hhandle hfree, fun q hq => isSome_epoll_registered hret ?_⟩
  · rw [registered_epEvents_of_free hfree]
    by_cases hfd : fd = r.fd
    · have hnone : ¬ ∃ q ∈ done, q.fd = fd ∧ q.handle = ptr := fun ⟨q, hq, hqfd, _⟩ =>
        hr (hfd ▸ hqfd ▸ List.mem_map_of_mem hq)
      rw [hfd] at hnone ⊢
      simp only [Function.update_self, Option.some.injEq, List.mem_append, List.mem_singleton, or_and_right,
        exists_or, hnone, false_or, exists_eq_left, true_and]
    · rw [Function.update_of_ne hfd, h.entry]
      simp [Ne.symm hfd]
  · simp only [registered, remembered, List.foldl_append, List.foldl_cons, List.foldl_nil]
    rcases hevent with hevent | hevent
    · simp [hevent, eventAccept]
    · simp only [hevent, eventAccept, eventRecv]
      exact h.socketfd
  · rcases List.mem_append.mp hq with hq | hq
    · exact Or.inl (h.listed q hq)
    · exact Or.inr (congrArg Registration.fd (List.mem_singleton.mp hq))

/-- A sequence of registrations on distinct descriptors. -/
theorem Registered.run (h : Registered done s) (hdistinct : ((done ++ regs).map Registration.fd).Nodup)
    (hrun : Run Register s regs s') : Registered (done ++ regs) s' := by
  induction hrun generalizing done with
  | nil => rwa [List.append_nil]
  | @cons s t u r rest hregister _ ih =>
    have hcons : done ++ r :: rest = done ++ [r] ++ rest := by simp
    rw [hcons] at hdistinct ⊢
    refine ih (h.step (fun hmem => ?_) hregister) hdistinct
    have hnodup := (List.nodup_append.mp (List.map_append ▸ hdistinct)).1
    rw [List.map_append, List.nodup_append] at hnodup
    exact hnodup.2.2 _ hmem _ (by simp) rfl

/-! ## Batches -/

/-- What the batches keep of the registrations. -/
structure Serves (regs : List Registration) (s : State) : Prop where
  entry : ∀ r ∈ regs, s.epEvents r.fd = some r.handle
  socketfd : s.socketfd = remembered regs
  keyed : Keyed s

/-- The registrations have filed all their handles. -/
theorem Registered.serves (h : Registered regs s) : Serves regs s where
  entry := fun r hr => (h.entry r.fd r.handle).mpr ⟨r, hr, rfl, rfl⟩
  socketfd := h.socketfd
  keyed := h.keyed

/-- A round keeps them: accepted connections are filed only where there is no entry. -/
theorem Serves.step (h : Serves regs s) (hround : Round s ready s') : Serves regs s' := by
  have houtcome := Outcome.of_dispatch h.keyed hround.2
  refine ⟨fun r hr => ?_, ?_, h.keyed.outcome hround.1 houtcome⟩
  · cases houtcome with
    | unchanged => exact h.entry r hr
    | unfiled => exact h.entry r hr
    | filed => exact filed_epEvents.mpr (Or.inl (h.entry r hr))
    | closed => exact h.entry r hr
  · cases houtcome with
    | unchanged => exact h.socketfd
    | unfiled => exact h.socketfd
    | filed => exact h.socketfd
    | closed => exact h.socketfd

/-- The handler called on a registered descriptor depends on the remembered one only. -/
theorem Serves.invokes_iff {events : ℕ} {handler : Handler} {event : HandlePtr} (h : Serves regs s) (hr : r ∈ regs)
    (hlisted : (s.kernel.epoll r.fd).isSome) (hin : events &&& epollIn ≠ 0) : s.Invokes r.fd events handler event ↔
      handler = (if remembered regs = r.fd then .accept else .recv) ∧ event = r.handle := by
  rw [h.keyed.invokes_iff hlisted (h.entry r hr) hin, h.socketfd]

/-- In every batch, also after other batches and whatever fails in them, an `EPOLLIN` event on a registered descriptor
invokes the handler it was registered for on its handle, and nothing else. -/
def DispatchedByKind (regs : List Registration) (s : State) : Prop :=
  ∀ batches t, Run Turn s batches t → ∀ before ready after u, Possible t (before ++ ready :: after) →
    Run Round t before u → ready.events &&& epollIn ≠ 0 → ∀ r ∈ regs, r.fd = ready.fd →
      ∀ handler event, u.Invokes ready.fd ready.events handler event ↔ handler = r.handler ∧ event = r.handle

/-- The descriptor of an event is still in the epoll set after the events before it. -/
theorem Possible.listed_after {t u : State} {before after : List Ready} (h : Keyed t)
    (hpossible : Possible t (before ++ ready :: after)) (hrun : Run Round t before u) :
    (u.kernel.epoll ready.fd).isSome := by
  have hdistinct := hpossible.distinct
  rw [List.map_append, List.map_cons, List.nodup_append] at hdistinct
  have hne : ∀ other ∈ before, ready.fd ≠ other.fd := fun other hother heq =>
    hdistinct.2.2 other.fd (List.mem_map_of_mem hother) ready.fd List.mem_cons_self heq.symm
  exact h.listed_of_rounds hne (hpossible.listed ready (by simp)) hrun

/-- Dispatching by kind is a property of the remembered descriptor. -/
theorem Registered.dispatchedByKind_iff (h : Registered regs s) :
    DispatchedByKind regs s ↔ ∀ r ∈ regs, remembered regs = r.fd ↔ r.event = eventAccept := by
  have hhandler : ∀ r : Registration, (if remembered regs = r.fd then Handler.accept else .recv) = r.handler ↔
      (remembered regs = r.fd ↔ r.event = eventAccept) := fun r => by
    rw [Registration.handler]
    split <;> split <;> simp [*]
  constructor
  · intro hkind r hr
    have hin : epollIn &&& epollIn ≠ 0 := by decide
    -- a batch of one event
    have hinvokes := hkind [] s .nil [] ⟨r.fd, epollIn, ⟨0, 0, 0, 0, 0⟩⟩ [] s
      ⟨by simp [maxEpollItem], by simp, by simpa using h.listed r hr⟩ .nil hin r hr rfl
    rw [← hhandler]
    exact ((hinvokes _ _).mp ((h.serves.invokes_iff hr (h.listed r hr) hin).mpr ⟨rfl, rfl⟩)).1
  · intro hkind batches t hbatches before ready after u hpossible hrun hin r hr hfd handler event
    have ht : Serves regs t := hbatches.preserves
      (fun _ _ _ hs hturn => hturn.2.preserves (fun _ _ _ hs => hs.step) hs) h.serves
    have hu : Serves regs u := hrun.preserves (fun _ _ _ hs => hs.step) ht
    have hlisted := hpossible.listed_after ht.keyed hrun
    rw [← hfd] at hlisted ⊢
    rw [hu.invokes_iff hr hlisted hin, (hhandler r).mpr (hkind r hr)]

/-! ## One listener -/

/-- At most one descriptor is registered with `Event_Accept`, and descriptor 0 is not registered if
there is none. -/
structure OneListener (regs : List Registration) : Prop where
  unique : ∀ r ∈ regs, ∀ q ∈ regs, r.event = eventAccept → q.event = eventAccept → r.fd = q.fd
  zero : (∀ r ∈ regs, r.event ≠ eventAccept) → ∀ r ∈ regs, r.fd ≠ 0

/-- The remembered descriptor is the one registered last with `Event_Accept`, or 0. -/
theorem remembered_cases (regs : List Registration) :
    (∃ r ∈ regs, r.event = eventAccept ∧ remembered regs = r.fd) ∨
      (∀ r ∈ regs, r.event ≠ eventAccept) ∧ remembered regs = 0 := by
  induction regs using List.reverseRecOn with
  | nil => exact Or.inr ⟨fun r hr => absurd hr List.not_mem_nil, rfl⟩
  | append_singleton regs last ih =>
    have hlast : remembered (regs ++ [last]) =
        if last.event = eventAccept then last.fd else remembered regs := by
      simp [remembered, List.foldl_append]
    by_cases hevent : last.event = eventAccept
    · exact Or.inl ⟨last, by simp, hevent, by rw [hlast, if_pos hevent]⟩
    · rw [hlast, if_neg hevent]
      rcases ih with ⟨r, hr, haccept, hfd⟩ | ⟨hnone, hzero⟩
      · exact Or.inl ⟨r, List.mem_append_left _ hr, haccept, hfd⟩
      · refine Or.inr ⟨fun r hr => ?_, hzero⟩
        rcases List.mem_append.mp hr with hr | hr
        · exact hnone r hr
        · rwa [List.mem_singleton.mp hr]

/-- After registrations on distinct descriptors, events are dispatched by kind if and only if there is
at most one listener, and descriptor 0 is not registered without one. -/
theorem dispatchedByKind_iff_oneListener (hfresh : Fresh s) (hrun : Run Register s regs s')
    (hdistinct : (regs.map Registration.fd).Nodup) : DispatchedByKind regs s' ↔ OneListener regs := by
  have hregistered : Registered regs s' := hfresh.registered.run hdistinct hrun
  rw [hregistered.dispatchedByKind_iff]
  have hsame : ∀ r ∈ regs, ∀ q ∈ regs, r.fd = q.fd → r = q := fun r hr q hq => List.inj_on_of_nodup_map hdistinct hr hq
  rcases remembered_cases regs with ⟨last, hlast, hevent, hfd⟩ | ⟨hnone, hzero⟩
  · rw [hfd]
    constructor
    · intro h
      refine ⟨fun r hr q hq hr' hq' => ((h r hr).mpr hr').symm.trans ((h q hq).mpr hq'), fun hno => ?_⟩
      exact absurd hevent (hno last hlast)
    · intro h r hr
      refine ⟨fun heq => ?_, fun hevent' => h.unique last hlast r hr hevent hevent'⟩
      rwa [← hsame last hlast r hr heq]
  · rw [hzero]
    constructor
    · intro h
      refine ⟨fun r hr _ _ haccept => absurd haccept (hnone r hr), fun _ r hr heq => ?_⟩
      exact hnone r hr ((h r hr).mp heq.symm)
    · intro h r hr
      exact iff_of_false (fun heq => h.zero hnone r hr heq.symm) (hnone r hr)

/-! ## Two handles -/

/-- New handles at 64 for descriptor 3 and at 72 for descriptor 5, both open. -/
def twoHandles : State :=
  ((new ⟨fun fd => if fd = 3 then some 0 else if fd = 5 then some 1 else none, fun _ => none, 2⟩).newHandle 64
    3).newHandle 72 5

/-- Registering both. -/
theorem run_twoHandles {first second : ℕ} (hfirst : first = eventAccept ∨ first = eventRecv)
    (hsecond : second = eventAccept ∨ second = eventRecv) :
    Run Register twoHandles [⟨64, 3, first⟩, ⟨72, 5, second⟩]
      ((twoHandles.registered 64 ⟨3, 0⟩ first 0).registered 72 ⟨5, 0⟩ second 0) :=
  .cons ⟨hfirst, ⟨0, rfl⟩, 0, registerEventHandle_eq rfl⟩
    (.cons ⟨hsecond, ⟨0, rfl⟩, 0, registerEventHandle_eq rfl⟩ .nil)

/-- A listener and a connection. -/
theorem dispatchedByKind_listener : ∃ s, Run Register twoHandles
    [⟨64, 3, eventAccept⟩, ⟨72, 5, eventRecv⟩] s ∧ OneListener [⟨64, 3, eventAccept⟩, ⟨72, 5, eventRecv⟩] ∧
      (DispatchedByKind [⟨64, 3, eventAccept⟩, ⟨72, 5, eventRecv⟩] s ↔
        OneListener [⟨64, 3, eventAccept⟩, ⟨72, 5, eventRecv⟩]) := by
  have hrun := run_twoHandles (Or.inl rfl) (Or.inr rfl)
  refine ⟨_, hrun, ⟨?_, ?_⟩, dispatchedByKind_iff_oneListener ⟨fun _ => rfl, rfl⟩ hrun (by decide)⟩
  · simp [eventAccept, eventRecv]
  · simp

/-- Of two listeners the first gets `HandRecv`, which closes its socket when `recv` fails on it. -/
theorem not_dispatchedByKind_two_listeners : ∃ s s' : State, Run Register twoHandles
    [⟨64, 3, eventAccept⟩, ⟨72, 5, eventAccept⟩] s ∧ Possible s [⟨3, epollIn, ⟨-1, 0, 0, 0, -1⟩⟩] ∧
      s.Invokes 3 epollIn .recv 64 ∧ s.dispatch ⟨3, epollIn, ⟨-1, 0, 0, 0, -1⟩⟩ = some s' ∧
        s.kernel.opened 3 = some 0 ∧ s'.kernel.opened 3 = none ∧
          ¬ DispatchedByKind [⟨64, 3, eventAccept⟩, ⟨72, 5, eventAccept⟩] s := by
  have hrun : Run Register twoHandles [⟨64, 3, eventAccept⟩, ⟨72, 5, eventAccept⟩] _ :=
    run_twoHandles (Or.inl rfl) (Or.inl rfl)
  have hfresh : Fresh twoHandles := ⟨fun _ => rfl, rfl⟩
  have hinvokes : Invokes _ 3 epollIn .recv 64 :=
    (hfresh.registered.run (by decide) hrun).keyed.invokes rfl (by decide)
  refine ⟨_, _, hrun, by decide, hinvokes, rfl, rfl, rfl, fun hkind => ?_⟩
  have hexpected := hkind [] _ .nil [] ⟨3, epollIn, ⟨-1, 0, 0, 0, -1⟩⟩ [] _ (by decide) .nil (by decide)
    ⟨64, 3, eventAccept⟩ List.mem_cons_self rfl
  exact absurd ((hexpected .recv 64).mp hinvokes).1 (by decide)

end State

end CppProject.Reactor
