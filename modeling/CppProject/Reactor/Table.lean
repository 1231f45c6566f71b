import CppProject.Reactor.Batches

/-!
# The table and the live connections

While no connection is closed, `ep_events` lists exactly the open descriptors of the epoll set, each
with the handle created for its connection. `HandRecv` closes a descriptor at end of file and on an
error, and leaves the handle in the table. No function called in a run takes it out, and a later
connection on the same descriptor does not replace it, so the table does not match again.
-/

namespace CppProject.Reactor

namespace State

variable {lisfd : Fd} {s s' : State} {ready : Ready} {batch : List Ready} {batches : List (List Ready)}

/-- The keys of `ep_events` are the open descriptors in the epoll set, and `GetEventHandle` returns
the handle created for the connection that is open. -/
structure TableMatches (s : State) : Prop where
  keys : ∀ fd, (s.epEvents fd).isSome ↔ (s.kernel.opened fd).isSome ∧ (s.kernel.epoll fd).isSome
  handle : ∀ fd conn, s.kernel.opened fd = some conn → (s.kernel.epoll fd).isSome →
    ∃ ptr, s.getEventHandle fd = some ptr ∧ s.createdFor ptr = some conn

/-- The event makes `HandRecv` close its descriptor: `recv` on a connection returns zero or an error. -/
def Ready.Closes (lisfd : Fd) (ready : Ready) : Prop :=
  ready.fd ≠ lisfd ∧ ready.events &&& epollIn ≠ 0 ∧ ready.answers.recv ≤ 0

/-- A handle is in the table for an open, listed descriptor and its connection. -/
structure Entry (s : State) (fd : Fd) (ptr : HandlePtr) (conn : Conn) : Prop where
  handle : s.heap ptr = some ⟨fd, 1⟩
  created : s.createdFor ptr = some conn
  opened : s.kernel.opened fd = some conn
  listed : (s.kernel.epoll fd).isSome

/-- While no connection has been closed. -/
structure Inv (lisfd : Fd) (s : State) : Prop where
  socketfd : s.socketfd = lisfd
  entry : ∀ fd ptr, s.epEvents fd = some ptr → ∃ conn, Entry s fd ptr conn
  listed : ∀ fd, (s.kernel.epoll fd).isSome → (s.epEvents fd).isSome
  numbered : ∀ fd conn, s.kernel.opened fd = some conn → conn < s.kernel.nextConn

/-- The table has a handle for a connection that is no longer open on its descriptor. -/
structure Stale (s : State) : Prop where
  keyed : Keyed s
  left : ∃ fd ptr conn, s.epEvents fd = some ptr ∧ s.createdFor ptr = some conn ∧
    s.kernel.opened fd ≠ some conn ∧ conn < s.kernel.nextConn

/-- The entries of the table are handles of their own descriptors. -/
theorem Inv.keyed (h : Inv lisfd s) : Keyed s := fun fd ptr hentry =>
  let ⟨_, hconn⟩ := h.entry fd ptr hentry
  ⟨1, hconn.handle⟩

/-- The invariant says what the table must match. -/
theorem Inv.tableMatches (h : Inv lisfd s) : TableMatches s where
  keys := fun fd => by
    refine ⟨fun hkey => ?_, fun hopen => h.listed fd hopen.2⟩
    obtain ⟨ptr, hptr⟩ := Option.isSome_iff_exists.mp hkey
    obtain ⟨conn, hconn⟩ := h.entry fd ptr hptr
    exact ⟨by rw [hconn.opened]; rfl, hconn.listed⟩
  handle := fun fd conn hopen hlisted => by
    obtain ⟨ptr, hptr⟩ := Option.isSome_iff_exists.mp (h.listed fd hlisted)
    obtain ⟨conn', hconn⟩ := h.entry fd ptr hptr
    obtain rfl : conn' = conn := Option.some.inj (hconn.opened.symm.trans hopen)
    exact ⟨ptr, hptr, hconn.created⟩

/-- A stale handle contradicts a matching table. -/
theorem Stale.not_tableMatches (h : Stale s) : ¬ TableMatches s := fun hmatches => by
  obtain ⟨fd, ptr, conn, hentry, hcreated, hopened, -⟩ := h.left
  have hkey := (hmatches.keys fd).mp (by rw [hentry]; rfl)
  obtain ⟨conn', hconn'⟩ := Option.isSome_iff_exists.mp hkey.1
  obtain ⟨ptr', hptr', hcreated'⟩ := hmatches.handle fd conn' hconn' hkey.2
  obtain rfl : ptr = ptr' := Option.some.inj (hentry.symm.trans hptr')
  obtain rfl : conn = conn' := Option.some.inj (hcreated.symm.trans hcreated')
  exact hopened hconn'

/-! ## One round -/

/-- The entries after a connection has been accepted: the new handle is filed only if its descriptor
has none. -/
theorem accepted_epEvents {answers : Answers} {fd : Fd} {ptr : HandlePtr} :
    (s.accepted answers).epEvents fd = some ptr ↔ s.epEvents fd = some ptr ∨
      s.epEvents fd = none ∧ fd = answers.accept ∧ ptr = answers.new := by
  rw [accepted]
  by_cases hfd : fd = answers.accept
  · subst hfd
    cases hentry : s.epEvents answers.accept with
    | some _ => simp [hentry]
    | none => simp [eq_comm]
  · cases hentry : s.epEvents answers.accept with
    | some _ => simp [hfd]
    | none => simp [hfd]

/-- A new handle is none of those in the table. -/
theorem Keyed.ne_new (h : Keyed s) {answers : Answers} (hvalid : answers.Valid s) {fd : Fd} {ptr : HandlePtr}
    (hentry : s.epEvents fd = some ptr) : ptr ≠ answers.new := fun heq => by
  obtain ⟨status, hhandle⟩ := h fd ptr hentry
  rw [heq, hvalid.new] at hhandle
  contradiction

/-- An event keeps the entries of the table. -/
theorem Keyed.step (h : Keyed s) (hvalid : ready.answers.Valid s) (heffect : Effect s ready s') : Keyed s' := by
  cases heffect with
  | unchanged => exact h
  | closed => exact h
  | accepted =>
    intro fd ptr hentry
    rcases accepted_epEvents.mp hentry with hold | ⟨-, rfl, rfl⟩
    · obtain ⟨status, hhandle⟩ := h fd ptr hold
      exact ⟨status, (Function.update_of_ne (h.ne_new hvalid hold) _ _).trans hhandle⟩
    · exact ⟨1, Function.update_self _ _ _⟩

/-- A stale handle stays, whatever happens to its descriptor. -/
theorem Stale.step (h : Stale s) (hdispatch : Dispatch s ready s') : Stale s' := by
  have heffect := Effect.of_dispatch h.keyed hdispatch
  refine ⟨h.keyed.step hdispatch.1 heffect, ?_⟩
  obtain ⟨fd, ptr, conn, hentry, hcreated, hopened, hconn⟩ := h.left
  refine ⟨fd, ptr, conn, ?_⟩
  cases heffect with
  | unchanged => exact ⟨hentry, hcreated, hopened, hconn⟩
  | accepted =>
    refine ⟨accepted_epEvents.mpr (Or.inl hentry),
      (Function.update_of_ne (h.keyed.ne_new hdispatch.1 hentry) _ _).trans hcreated, ?_, Nat.lt_succ_of_lt hconn⟩
    -- a later connection has a new number
    by_cases hfd : fd = ready.answers.accept
    · rw [hfd]
      simpa [State.accepted] using Nat.ne_of_gt hconn
    · simpa [State.accepted, Function.update_of_ne hfd] using hopened
  | closed =>
    refine ⟨hentry, hcreated, ?_, hconn⟩
    by_cases hfd : fd = ready.fd
    · simp [Kernel.close, hfd]
    · simpa [Kernel.close, Function.update_of_ne hfd] using hopened

/-- Closing a connection makes its handle stale. -/
theorem Inv.stale_of_closed (h : Inv lisfd s) (hentry : (s.epEvents ready.fd).isSome) :
    Stale { s with kernel := s.kernel.close ready.fd } := by
  obtain ⟨ptr, hptr⟩ := Option.isSome_iff_exists.mp hentry
  obtain ⟨conn, hconn⟩ := h.entry ready.fd ptr hptr
  exact ⟨h.keyed, ready.fd, ptr, conn, hptr, hconn.created, by simp [Kernel.close],
    h.numbered ready.fd conn hconn.opened⟩

/-- Accepting a connection files its handle. -/
theorem Inv.accepted (h : Inv lisfd s) {answers : Answers} (hvalid : answers.Valid s)
    (haccept : answers.accept ≠ -1) : Inv lisfd (s.accepted answers) := by
  have hclosed : s.kernel.opened answers.accept = none := (hvalid.accept.resolve_left haccept).2
  have hfree : s.epEvents answers.accept = none := Option.eq_none_iff_forall_ne_some.mpr fun ptr hptr => by
    obtain ⟨conn, hconn⟩ := h.entry _ ptr hptr
    exact absurd (hconn.opened.symm.trans hclosed) (by simp)
  refine ⟨h.socketfd, fun fd ptr hentry => ?_, fun fd hlisted => ?_, fun fd conn hopen => ?_⟩
  · rcases accepted_epEvents.mp hentry with hold | ⟨-, rfl, rfl⟩
    · have hne : fd ≠ answers.accept := fun heq => by
        rw [heq, hfree] at hold
        contradiction
      have hptr : ptr ≠ answers.new := h.keyed.ne_new hvalid hold
      obtain ⟨conn, hconn⟩ := h.entry fd ptr hold
      refine ⟨conn, ?_, ?_, ?_, ?_⟩
      · exact (Function.update_of_ne hptr _ _).trans hconn.handle
      · exact (Function.update_of_ne hptr _ _).trans hconn.created
      · exact (Function.update_of_ne hne _ _).trans hconn.opened
      · simpa [State.accepted, Function.update_of_ne hne] using hconn.listed
    · exact ⟨s.kernel.nextConn, by simp [State.accepted], by simp [State.accepted], by simp [State.accepted],
        by simp [State.accepted]⟩
  · by_cases hfd : fd = answers.accept
    · simp [State.accepted, hfd, hfree]
    · have hold : (s.kernel.epoll fd).isSome := by
        simpa [State.accepted, Function.update_of_ne hfd] using hlisted
      obtain ⟨ptr, hptr⟩ := Option.isSome_iff_exists.mp (h.listed fd hold)
      rw [accepted_epEvents.mpr (Or.inl hptr)]
      rfl
  · by_cases hfd : fd = answers.accept
    · have hnext : s.kernel.nextConn = conn := by simpa [State.accepted, hfd] using hopen
      exact hnext ▸ Nat.lt_succ_self _
    · have hold : s.kernel.opened fd = some conn := by
        simpa [State.accepted, Function.update_of_ne hfd] using hopen
      exact Nat.lt_succ_of_lt (h.numbered fd conn hold)

/-- A round that does not close a connection. -/
theorem Inv.step (h : Inv lisfd s) (hopen : ¬ ready.Closes lisfd) (hdispatch : Dispatch s ready s') :
    Inv lisfd s' := by
  cases Effect.of_dispatch h.keyed hdispatch with
  | unchanged => exact h
  | accepted _ haccept => exact h.accepted hdispatch.1 haccept
  | closed _ hlisten hin hrecv => exact absurd ⟨fun heq => hlisten (h.socketfd.trans heq.symm), hin, hrecv⟩ hopen

/-- A round that closes one. -/
theorem Inv.step_closes (h : Inv lisfd s) (hlisted : (s.kernel.epoll ready.fd).isSome)
    (hcloses : ready.Closes lisfd) (hdispatch : Dispatch s ready s') : Stale s' := by
  obtain ⟨hne, hin, hrecv⟩ := hcloses
  have hentry := h.listed ready.fd hlisted
  cases Effect.of_dispatch h.keyed hdispatch with
  | unchanged hnot =>
    refine absurd ⟨fun hnone => ?_, fun heq => hne (heq.symm.trans h.socketfd), hin, hrecv⟩ hnot
    rw [hnone] at hentry
    contradiction
  | accepted hlisten => exact absurd (hlisten.symm.trans h.socketfd) hne
  | closed => exact h.stale_of_closed hentry

/-- A round leaves the other descriptors in the epoll set. -/
theorem Effect.listed (h : Effect s ready s') {fd : Fd} (hfd : fd ≠ ready.fd)
    (hlisted : (s.kernel.epoll fd).isSome) : (s'.kernel.epoll fd).isSome := by
  cases h with
  | unchanged => exact hlisted
  | accepted =>
    by_cases heq : fd = ready.answers.accept
    · simp [State.accepted, heq]
    · simpa [State.accepted, Function.update_of_ne heq] using hlisted
  | closed => simpa [Kernel.close, Function.update_of_ne hfd] using hlisted

/-! ## Runs -/

/-- The descriptor is in the epoll set when its event is handled. -/
def Listed (s : State) (ready : Ready) : Prop := (s.kernel.epoll ready.fd).isSome

/-- Within a batch every descriptor is still in the epoll set when its event is handled. -/
theorem run_listed (h : Keyed s) (hdistinct : (batch.map Ready.fd).Nodup)
    (hlisted : ∀ ready ∈ batch, Listed s ready) (hrun : Transition.Run Dispatch s batch s') :
    Transition.Run (Transition.Restrict Dispatch Listed) s batch s' := by
  induction hrun with
  | nil => exact .nil
  | @cons s t u ready rest hdispatch _ ih =>
    have heffect := Effect.of_dispatch h hdispatch
    obtain ⟨hnot, hrest⟩ := List.nodup_cons.mp hdistinct
    refine .cons ⟨hdispatch, hlisted ready List.mem_cons_self⟩
      (ih (h.step hdispatch.1 heffect) hrest fun other hother => ?_)
    have hne : other.fd ≠ ready.fd := fun heq => hnot (heq ▸ List.mem_map_of_mem hother)
    exact heffect.listed hne (hlisted other (List.mem_cons_of_mem ready hother))

/-- A batch keeps the invariant if it closes no connection, and leaves a stale handle otherwise. -/
theorem Inv.waitEvent (h : Inv lisfd s) (hwait : WaitEvent s batch s') :
    ((∀ ready ∈ batch, ¬ ready.Closes lisfd) ∧ Inv lisfd s') ∨
      ((∃ ready ∈ batch, ¬ ¬ ready.Closes lisfd) ∧ Stale s') :=
  Transition.Run.dichotomy (P := Inv lisfd) (Q := Stale)
    (fun _ _ _ h hopen hstep => h.step hopen hstep.1)
    (fun _ _ _ h hcloses hstep => h.step_closes hstep.2 (not_not.mp hcloses) hstep.1)
    (fun _ _ _ h hstep => h.step hstep.1)
    h (run_listed h.keyed hwait.1.distinct hwait.1.listed hwait.2)

/-- A batch leaves the stale handle. -/
theorem Stale.waitEvent (h : Stale s) (hwait : WaitEvent s batch s') : Stale s' :=
  hwait.2.preserves (fun _ _ _ h => h.step) h

/-- Registering the listening handle. -/
theorem Started.inv (h : Started lisfd s) : Inv lisfd s := by
  obtain ⟨kernel, ptr, hopen, hempty, hnumbered, hregister⟩ := h
  obtain ⟨conn, hconn⟩ := Option.isSome_iff_exists.mp hopen
  have hs : s = { epEvents := Function.update (fun _ => none) lisfd (some ptr), socketfd := lisfd
                  heap := Function.update (fun _ => none) ptr (some ⟨lisfd, 1⟩)
                  kernel := { kernel with epoll := Function.update kernel.epoll lisfd (some epollIn) }
                  createdFor := Function.update (fun _ => none) ptr (some conn) : State } := by
    simp [registerEventHandle, regist, newHandle, new, eventAccept, Kernel.epollCtl, hconn] at hregister
    exact hregister.symm
  subst hs
  refine ⟨rfl, fun fd ptr' hentry => ?_, fun fd hlisted => ?_, hnumbered⟩
  · by_cases hfd : fd = lisfd
    · subst hfd
      obtain rfl : ptr = ptr' := by simpa using hentry
      exact ⟨conn, by simp, by simp, hconn, by simp⟩
    · simp [Function.update_of_ne hfd] at hentry
  · by_cases hfd : fd = lisfd
    · simp [hfd]
    · simp [Function.update_of_ne hfd, hempty] at hlisted

/-- After any batches, the table matches the live connections if and only if none of their events has
made `HandRecv` close its descriptor. -/
theorem tableMatches_iff_not_closes (hstart : Started lisfd s)
    (hrun : Transition.Run WaitEvent s batches s') :
    TableMatches s' ↔ ∀ batch ∈ batches, ∀ ready ∈ batch, ¬ ready.Closes lisfd := by
  have hcases := Transition.Run.dichotomy (P := Inv lisfd) (Q := Stale)
    (G := fun batch => ∀ ready ∈ batch, ¬ ready.Closes lisfd)
    (fun _ _ _ h hopen hwait => (h.waitEvent hwait).elim And.right
      fun ⟨⟨ready, hready, hcloses⟩, _⟩ => absurd (hopen ready hready) hcloses)
    (fun _ _ _ h hcloses hwait => (h.waitEvent hwait).elim (fun hopen => absurd hopen.1 hcloses) And.right)
    (fun _ _ _ h => h.waitEvent) hstart.inv hrun
  rcases hcases with ⟨hopen, hinv⟩ | ⟨⟨batch, hbatch, hcloses⟩, hstale⟩
  · exact iff_of_true hinv.tableMatches hopen
  · exact iff_of_false hstale.not_tableMatches fun hopen => hcloses (hopen batch hbatch)


/-! ## Two runs -/

/-- The listening descriptor 3 is open. -/
def listenKernel : Kernel := ⟨fun fd => if fd = 3 then some 0 else none, fun _ => none, 1⟩

/-- A replay after registering the listening handle is a run of a started reactor. -/
theorem run_of_replay {α : Type*} (batches : List (List Ready)) (observe : State → α) {a : α}
    (h : (((new listenKernel).newHandle 64 3).registerEventHandle 64 eventAccept 0).bind (fun (ret, s) =>
      (Transition.replay checkWaitEvent s batches).map fun s' => (ret, observe s')) = some (0, a)) :
    ∃ s s', Started 3 s ∧ Transition.Run WaitEvent s batches s' ∧ observe s' = a := by
  obtain ⟨⟨ret, s⟩, hregister, hrun⟩ := Option.bind_eq_some_iff.mp h
  obtain ⟨s', hrun, hs'⟩ := Option.map_eq_some_iff.mp hrun
  obtain ⟨hret, hobserve⟩ := Prod.mk.inj hs'
  refine ⟨s, s', ⟨listenKernel, 64, rfl, fun _ => rfl, fun fd conn hconn => ?_, hret ▸ hregister⟩,
    Transition.Run.replay (fun _ _ _ => waitEvent_of_check) hrun, hobserve⟩
  have hzero : fd = 3 ∧ 0 = conn := by simpa [listenKernel] using hconn
  exact hzero.2 ▸ Nat.one_pos

/-- Two connections are accepted and the first of them sends data. -/
def dataBatches : List (List Ready) :=
  [[⟨3, epollIn, ⟨5, 0, 72, 0, 0⟩⟩], [⟨5, epollIn, ⟨-1, 0, 80, 0, 12⟩⟩, ⟨3, epollIn, ⟨6, 0, 80, 0, 0⟩⟩]]

/-- Batches that bring data close nothing, and the table matches. -/
theorem tableMatches_iff_not_closes_data : ∃ s s', Started 3 s ∧
    Transition.Run WaitEvent s dataBatches s' ∧ s'.getEventHandle 5 = some 72 ∧
      s'.getEventHandle 6 = some 80 ∧
        (TableMatches s' ↔ ∀ batch ∈ dataBatches, ∀ ready ∈ batch, ¬ Ready.Closes 3 ready) := by
  obtain ⟨s, s', hstart, hrun, hs'⟩ := run_of_replay dataBatches
    (fun s' => (s'.getEventHandle 5, s'.getEventHandle 6)) (a := (some 72, some 80)) (by decide)
  obtain ⟨hfive, hsix⟩ := Prod.mk.inj hs'
  exact ⟨s, s', hstart, hrun, hfive, hsix, tableMatches_iff_not_closes hstart hrun⟩

/-- A connection is accepted, ends, and another is accepted on the same descriptor. -/
def reuseBatches : List (List Ready) :=
  [[⟨3, epollIn, ⟨5, 0, 72, 0, 0⟩⟩], [⟨5, epollIn, ⟨-1, 0, 80, 0, 0⟩⟩], [⟨3, epollIn, ⟨5, 0, 80, 0, 0⟩⟩]]

/-- The second connection finds the handle of the first in the table. -/
theorem stale_handle_after_reuse : ∃ s s', Started 3 s ∧ Transition.Run WaitEvent s reuseBatches s' ∧
    s'.getEventHandle 5 = some 72 ∧ s'.createdFor 72 = some 1 ∧ s'.kernel.opened 5 = some 2 ∧
      ¬ TableMatches s' := by
  obtain ⟨s, s', hstart, hrun, hs'⟩ := run_of_replay reuseBatches
    (fun s' => (s'.getEventHandle 5, s'.createdFor 72, s'.kernel.opened 5, (s'.kernel.epoll 5).isSome))
    (a := (some 72, some 1, some 2, true)) (by decide)
  obtain ⟨hentry, hs'⟩ := Prod.mk.inj hs'
  obtain ⟨hcreated, hs'⟩ := Prod.mk.inj hs'
  obtain ⟨hopened, hlisted⟩ := Prod.mk.inj hs'
  refine ⟨s, s', hstart, hrun, hentry, hcreated, hopened, fun hmatches => ?_⟩
  obtain ⟨ptr, hptr, hcreated'⟩ := hmatches.handle 5 2 hopened hlisted
  obtain rfl : 72 = ptr := Option.some.inj (hentry.symm.trans hptr)
  exact absurd (hcreated.symm.trans hcreated') (by decide)

end State

end CppProject.Reactor
