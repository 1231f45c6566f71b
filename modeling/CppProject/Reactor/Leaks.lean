import CppProject.Reactor.Rounds
import Mathlib.Data.List.Nodup

/-!
# What the reactor never gives back

In these runs `fcntl` and `epoll_ctl` may fail as well. A connection gets a handle of its own unless `fcntl` fails, and
the table files it only if its descriptor has no handle yet. So `GetEventHandle` returns the first handle ever created
for a descriptor, `~Reactor` deletes these and no others, and the handles of the later connections on a descriptor are
lost. A connection that did not get into the epoll set is never reported and so never closed.
-/

namespace CppProject.Reactor

namespace State

open Transition

variable {lisfd : Fd} {s s' : State} {ready : Ready} {batch : List Ready} {batches : List (List Ready)}

/-! ## The handles -/

/-- The handle that an event creates, with its descriptor. -/
def Ready.creation (lisfd : Fd) (ready : Ready) : Option (Fd × HandlePtr) :=
  if ready.Accepts lisfd ∧ 0 ≤ ready.answers.fcntl then some (ready.answers.accept, ready.answers.new) else none

/-- The handles created so far, in order, against the table and the heap. -/
structure Accounted (lisfd : Fd) (created : List (Fd × HandlePtr)) (s : State) : Prop where
  socketfd : s.socketfd = lisfd
  entry : ∀ fd, s.epEvents fd = created.lookup fd
  handle : ∀ fd ptr, (fd, ptr) ∈ created ↔ ∃ status, s.heap ptr = some ⟨fd, status⟩
  distinct : (created.map Prod.snd).Nodup
  listening : (created.lookup lisfd).isSome

variable {created : List (Fd × HandlePtr)}

/-- A handle that is looked up was created. -/
theorem mem_of_lookup {fd : Fd} {ptr : HandlePtr} (h : created.lookup fd = some ptr) : (fd, ptr) ∈ created := by
  obtain ⟨before, after, rfl, -⟩ := List.lookup_eq_some_iff.mp h
  exact List.mem_append_right _ List.mem_cons_self

/-- The entries of the table are handles of their own descriptors. -/
theorem Accounted.keyed (h : Accounted lisfd created s) : Keyed s := fun fd ptr hentry =>
  (h.handle fd ptr).mp (mem_of_lookup (h.entry fd ▸ hentry))

/-- A new handle is filed only if it is the first for its descriptor. -/
theorem lookup_filed {answers : Answers} {fd : Fd} (hentry : ∀ fd, s.epEvents fd = created.lookup fd) :
    (s.filed answers).epEvents fd = (created ++ [(answers.accept, answers.new)]).lookup fd := by
  change (if (s.epEvents answers.accept).isSome then s.epEvents
    else Function.update s.epEvents answers.accept (some answers.new)) fd = _
  rw [List.lookup_append, ← hentry fd]
  by_cases hfd : fd = answers.accept
  · subst hfd
    cases hold : s.epEvents answers.accept with
    | none => simp
    | some ptr => simp [hold]
  · have hlater : List.lookup fd [(answers.accept, answers.new)] = none := by
      rw [List.lookup_cons, beq_eq_false_iff_ne.mpr hfd]
      rfl
    rw [hlater, Option.or_none]
    split
    · rfl
    · exact Function.update_of_ne hfd _ _

/-- A round creates the handle its event asks for, and no other. -/
theorem Accounted.step (h : Accounted lisfd created s) (hround : Round s ready s') :
    Accounted lisfd (created ++ (ready.creation lisfd).toList) s' := by
  obtain ⟨hallowed, hdispatch⟩ := hround
  cases Outcome.of_dispatch h.keyed hdispatch with
  | unchanged hnot =>
    have hcreation : ready.creation lisfd = none := by
      refine if_neg fun ⟨haccepts, _⟩ => hnot ?_ (h.socketfd ▸ haccepts)
      rw [haccepts.1, h.entry]
      exact h.listening
    rw [hcreation, Option.toList_none, List.append_nil]
    exact h
  | unfiled _ hfcntl =>
    rw [Ready.creation, if_neg fun hboth => absurd hboth.2 (Int.not_le.mpr hfcntl), Option.toList_none, List.append_nil]
    exact ⟨h.socketfd, h.entry, h.handle, h.distinct, h.listening⟩
  | filed haccepts hfcntl =>
    rw [Ready.creation, if_pos ⟨h.socketfd ▸ haccepts, hfcntl⟩, Option.toList_some]
    have hnew : ready.answers.new ∉ created.map Prod.snd := fun hmem => by
      obtain ⟨⟨fd, ptr⟩, hmem, rfl⟩ := List.mem_map.mp hmem
      obtain ⟨status, hhandle⟩ := (h.handle fd _).mp hmem
      exact absurd (hhandle.symm.trans hallowed.new) (by simp)
    refine ⟨h.socketfd, fun fd => lookup_filed h.entry, fun fd ptr => ?_, ?_, ?_⟩
    · rw [heap_filed, List.mem_append, List.mem_singleton, h.handle]
      by_cases hptr : ptr = ready.answers.new
      · subst hptr
        simp [hallowed.new, eq_comm]
      · simp [hptr]
    · rw [List.map_append, List.map_singleton]
      refine List.nodup_append.mpr ⟨h.distinct, List.pairwise_singleton _ _, fun ptr hptr other hother heq => hnew ?_⟩
      have hlast : other = ready.answers.new := List.mem_singleton.mp hother
      rwa [← hlast, ← heq]
    · rw [List.lookup_append, Option.isSome_or, h.listening, Bool.true_or]
  | closed hother =>
    have hcreation : ready.creation lisfd = none :=
      if_neg fun ⟨haccepts, _⟩ => hother (haccepts.1.trans h.socketfd.symm)
    rw [hcreation, Option.toList_none, List.append_nil]
    exact ⟨h.socketfd, h.entry, h.handle, h.distinct, h.listening⟩

/-- The handles that some events create. -/
def creations (lisfd : Fd) (events : List Ready) : List (Fd × HandlePtr) := events.filterMap (Ready.creation lisfd)

/-- What the first event creates is created first. -/
theorem creations_cons (ready : Ready) (rest : List Ready) :
    creations lisfd (ready :: rest) = (ready.creation lisfd).toList ++ creations lisfd rest := by
  rw [creations]
  cases h : ready.creation lisfd with
  | none =>
    rw [List.filterMap_cons_none h]
    rfl
  | some pair =>
    rw [List.filterMap_cons_some h]
    rfl

/-- The handles created in a batch. -/
theorem Accounted.rounds (h : Accounted lisfd created s) (hrun : Run Round s batch s') :
    Accounted lisfd (created ++ creations lisfd batch) s' := by
  induction hrun generalizing created with
  | nil => simpa [creations] using h
  | @cons s t u ready rest hround _ ih =>
    rw [creations_cons, ← List.append_assoc]
    exact ih (h.step hround)

/-- The handles created in a run of batches. -/
theorem Accounted.turns (h : Accounted lisfd created s) (hrun : Run Turn s batches s') :
    Accounted lisfd (created ++ creations lisfd batches.flatten) s' := by
  induction hrun generalizing created with
  | nil => simpa [creations] using h
  | @cons s t u batch rest hturn _ ih =>
    rw [List.flatten_cons, creations, List.filterMap_append, ← List.append_assoc]
    exact ih (h.rounds hturn.2)

/-! ## The destructor -/

/-- The loop of `Reactor::~Reactor` over the entries; it stops at a handle that is deleted already. -/
def deleteEntries (s : State) : List Fd → Option State
  | [] => some s
  | fd :: rest => (s.epEvents fd).bind fun ev => (s.heap ev).bind fun _ =>
      deleteEntries { s with heap := Function.update s.heap ev none } rest

/-- `Reactor::~Reactor`, with the keys of the table in the order in which the loop meets them. The demultiplexer closes
its epoll descriptor. -/
def destruct (s : State) (keys : List Fd) : Option State :=
  (deleteEntries { s with kernel.epoll := fun _ => none } keys).map fun s => { s with epEvents := fun _ => none }

/-- The keys of the table in ascending order. -/
structure Keys (s : State) (keys : List Fd) : Prop where
  ascending : keys.Pairwise (· < ·)
  mem : ∀ fd, fd ∈ keys ↔ (s.epEvents fd).isSome

/-- Handles filed under different descriptors are different, so the loop deletes each once. -/
theorem deleteEntries_eq {keys : List Fd} (hnodup : keys.Nodup) (hlive : ∀ fd ∈ keys, ∃ ptr status,
      s.epEvents fd = some ptr ∧ s.heap ptr = some ⟨fd, status⟩) :
    ∃ s', s.deleteEntries keys = some s' ∧ ∀ ptr, (s'.heap ptr).isSome ↔
      (s.heap ptr).isSome ∧ ∀ fd ∈ keys, s.epEvents fd ≠ some ptr := by
  induction keys generalizing s with
  | nil => exact ⟨s, rfl, fun ptr => by simp⟩
  | cons fd rest ih =>
    obtain ⟨ev, status, hentry, hhandle⟩ := hlive fd List.mem_cons_self
    obtain ⟨hnot, hrest⟩ := List.nodup_cons.mp hnodup
    obtain ⟨s', hdelete, hheap⟩ := ih (s := { s with heap := Function.update s.heap ev none }) hrest
      fun other hother => by
        obtain ⟨ptr, status', hentry', hhandle'⟩ := hlive other (List.mem_cons_of_mem _ hother)
        have hne : ptr ≠ ev := fun heq => by
          rw [heq, hhandle, Option.some.injEq] at hhandle'
          have hfd : fd = other := congrArg EventHandle.fd hhandle'
          exact hnot (hfd ▸ hother)
        exact ⟨ptr, status', hentry', (Function.update_of_ne hne _ _).trans hhandle'⟩
    refine ⟨s', by rw [deleteEntries, hentry, Option.bind_some, hhandle, Option.bind_some, hdelete], fun ptr => ?_⟩
    rw [hheap, List.forall_mem_cons, hentry, Ne, Option.some.injEq]
    by_cases hptr : ptr = ev
    · simp [hptr]
    · simp [hptr, Ne.symm hptr]

/-- The handle is not the first that was created for its descriptor. -/
def Superseded (created : List (Fd × HandlePtr)) (ptr : HandlePtr) : Prop :=
  ∃ before fd after, created = before ++ (fd, ptr) :: after ∧ fd ∈ before.map Prod.fst

/-- The table has the handles that are not superseded. -/
theorem superseded_iff (hdistinct : (created.map Prod.snd).Nodup) {fd : Fd} {ptr : HandlePtr}
    (hmem : (fd, ptr) ∈ created) : Superseded created ptr ↔ created.lookup fd ≠ some ptr := by
  constructor
  · rintro ⟨before, fd', after, rfl, hbefore⟩ hlookup
    obtain ⟨before', after', hsplit, hfirst⟩ := List.lookup_eq_some_iff.mp hlookup
    have hpair : (fd', ptr) = (fd, ptr) := List.inj_on_of_nodup_map hdistinct
      (List.mem_append_right _ List.mem_cons_self) hmem rfl
    rw [hpair] at hdistinct hsplit
    have hnot := (List.nodup_cons.mp (List.nodup_middle.mp hdistinct.of_map)).1
    rw [List.mem_append, not_or] at hnot
    obtain ⟨rfl, -, -⟩ := (List.append_cons_inj_of_notMem hnot.1 hnot.2).mp hsplit
    obtain ⟨pair, hmem', hfd⟩ := List.mem_map.mp hbefore
    have hne := hfirst pair hmem'
    rw [hfd, (Prod.mk.inj hpair).1] at hne
    simp at hne
  · intro hlookup
    obtain ⟨before, after, hsplit⟩ := List.append_of_mem hmem
    refine ⟨before, fd, after, hsplit, ?_⟩
    by_contra hbefore
    refine hlookup (List.lookup_eq_some_iff.mpr ⟨before, after, hsplit, fun pair hpair => bne_iff_ne.mpr fun heq => ?_⟩)
    exact hbefore (heq ▸ List.mem_map_of_mem hpair)

/-- The listening handle is the first. -/
theorem Started.accounted (h : Started lisfd s) :
    ∃ ptr, s.getEventHandle lisfd = some ptr ∧ Accounted lisfd [(lisfd, ptr)] s := by
  obtain ⟨kernel, ptr, -, -, -, hregister⟩ := h
  have hs : s = { epEvents := Function.update (fun _ => none) lisfd (some ptr), socketfd := lisfd
                  heap := Function.update (fun _ => none) ptr (some ⟨lisfd, 1⟩)
                  kernel := { kernel with epoll := Function.update kernel.epoll lisfd (some epollIn) }
                  createdFor := Function.update (fun _ => none) ptr (kernel.opened lisfd) : State } := by
    simp [registerEventHandle, regist, newHandle, new, eventAccept, Kernel.epollCtl] at hregister
    exact hregister.symm
  subst hs
  refine ⟨ptr, by simp [getEventHandle], rfl, fun fd => ?_, fun fd p => ?_, List.pairwise_singleton _ _, by simp⟩
  · by_cases hfd : fd = lisfd
    · simp [hfd]
    · rw [List.lookup_cons, beq_eq_false_iff_ne.mpr hfd]
      simp [hfd]
  · by_cases hp : p = ptr
    · simp [hp, eq_comm]
    · simp [hp]

/-- After any batches, whatever fails, the heap holds one handle for the listener and one for each accepted connection,
`GetEventHandle` returns the first one created for a descriptor, and the destructor deletes each of these once and
leaves the others. -/
theorem handles_of_run {ptr : HandlePtr} (hstart : Started lisfd s) (hptr : s.getEventHandle lisfd = some ptr)
    (hrun : Run Turn s batches s') {created : List (Fd × HandlePtr)}
    (hcreated : created = (lisfd, ptr) :: creations lisfd batches.flatten) :
    (created.map Prod.snd).Nodup ∧ (∀ p, (s'.heap p).isSome ↔ p ∈ created.map Prod.snd) ∧
      (∀ fd, s'.getEventHandle fd = created.lookup fd) ∧ ∀ keys, Keys s' keys → ∃ s'', s'.destruct keys = some s'' ∧
        ∀ p, (s''.heap p).isSome ↔ Superseded created p := by
  obtain ⟨ptr', hptr', hacc⟩ := hstart.accounted
  obtain rfl : ptr' = ptr := Option.some.inj (hptr'.symm.trans hptr)
  have h : Accounted lisfd created s' := hcreated ▸ hacc.turns hrun
  have hheap : ∀ p, (s'.heap p).isSome ↔ p ∈ created.map Prod.snd := fun p => by
    rw [Option.isSome_iff_exists, List.mem_map]
    constructor
    · rintro ⟨⟨fd, status⟩, hhandle⟩
      exact ⟨(fd, p), (h.handle fd p).mpr ⟨status, hhandle⟩, rfl⟩
    · rintro ⟨⟨fd, _⟩, hmem, rfl⟩
      obtain ⟨status, hhandle⟩ := (h.handle fd _).mp hmem
      exact ⟨_, hhandle⟩
  refine ⟨h.distinct, hheap, h.entry, fun keys hkeys => ?_⟩
  obtain ⟨s'', hdelete, hleft⟩ := deleteEntries_eq (s := { s' with kernel.epoll := fun _ => none })
    (hkeys.ascending.imp fun hlt => Int.ne_of_lt hlt) fun fd hfd => by
      obtain ⟨p, hentry⟩ := Option.isSome_iff_exists.mp ((hkeys.mem fd).mp hfd)
      obtain ⟨status, hhandle⟩ := h.keyed fd p hentry
      exact ⟨p, status, hentry, hhandle⟩
  refine ⟨_, by rw [destruct, hdelete, Option.map_some], fun p => ?_⟩
  change (s''.heap p).isSome ↔ _
  rw [hleft, hheap, List.mem_map]
  constructor
  · rintro ⟨⟨⟨fd, _⟩, hmem, rfl⟩, hnone⟩
    refine (superseded_iff h.distinct hmem).mpr fun hlookup => ?_
    have hentry := (h.entry fd).trans hlookup
    exact hnone fd ((hkeys.mem fd).mpr (by rw [hentry]; rfl)) hentry
  · intro hsuperseded
    obtain ⟨before, fd, after, hsplit, -⟩ := id hsuperseded
    have hmem : (fd, p) ∈ created := hsplit ▸ List.mem_append_right _ List.mem_cons_self
    refine ⟨⟨_, hmem, rfl⟩, fun fd' _ hentry => (superseded_iff h.distinct hmem).mp hsuperseded ?_⟩
    -- an entry of the table is the first handle of its own descriptor
    have hlookup := (h.entry fd').symm.trans hentry
    obtain rfl : fd' = fd := (Prod.mk.inj (List.inj_on_of_nodup_map h.distinct (mem_of_lookup hlookup) hmem rfl)).1
    exact hlookup

/-! ## The descriptors -/

/-- The connections that some events accept. -/
def connections (lisfd : Fd) (events : List Ready) : ℕ := events.countP fun ready => ready.Accepts lisfd

/-- The descriptors of the epoll set are open, and the connections are numbered in order. -/
structure Numbered (first : Conn) (count : ℕ) (s : State) : Prop where
  listed : ∀ fd, (s.kernel.epoll fd).isSome → (s.kernel.opened fd).isSome
  next : s.kernel.nextConn = first + count

/-- The connection is open on the descriptor, and the descriptor is not in the epoll set. -/
structure Unlisted (fd : Fd) (conn : Conn) (s : State) : Prop where
  opened : s.kernel.opened fd = some conn
  unlisted : s.kernel.epoll fd = none

/-- The open descriptors after a round. -/
theorem Outcome.opened (h : Outcome s ready s') :
    (ready.Accepts s.socketfd ∧ (∀ fd, s'.kernel.opened fd =
        if fd = ready.answers.accept then some s.kernel.nextConn else s.kernel.opened fd) ∧
        s'.kernel.nextConn = s.kernel.nextConn + 1) ∨
      (((s.epEvents ready.fd).isSome → ¬ ready.Accepts s.socketfd) ∧ s'.kernel.nextConn = s.kernel.nextConn ∧
        ∀ fd, s'.kernel.opened fd = s.kernel.opened fd ∨ (fd = ready.fd ∧ s'.kernel = s.kernel.close ready.fd)) := by
  have hopened : ∀ fd, Function.update s.kernel.opened ready.answers.accept (some s.kernel.nextConn) fd =
      if fd = ready.answers.accept then some s.kernel.nextConn else s.kernel.opened fd := fun fd =>
    Function.update_apply _ _ _ _
  cases h with
  | unchanged hnot => exact Or.inr ⟨hnot, rfl, fun _ => Or.inl rfl⟩
  | unfiled haccepts => exact Or.inl ⟨haccepts, hopened, rfl⟩
  | filed haccepts =>
    refine Or.inl ⟨haccepts, fun fd => ?_, ?_⟩
    · rw [kernel_filed, ← hopened]
      split <;> rfl
    · rw [kernel_filed]
      split <;> rfl
  | closed hother =>
    refine Or.inr ⟨fun _ haccepts => hother haccepts.1, rfl, fun fd => ?_⟩
    by_cases hfd : fd = ready.fd
    · exact Or.inr ⟨hfd, rfl⟩
    · exact Or.inl (Function.update_of_ne hfd _ _)

/-- An event opens a connection if it is an accepted one of the listener, and none otherwise. -/
theorem Accounted.accepts_iff (h : Accounted lisfd created s) (hround : Outcome s ready s') :
    ready.Accepts lisfd ∧ (∀ fd, s'.kernel.opened fd =
        if fd = ready.answers.accept then some s.kernel.nextConn else s.kernel.opened fd) ∧
        s'.kernel.nextConn = s.kernel.nextConn + 1 ∨
      ¬ ready.Accepts lisfd ∧ s'.kernel.nextConn = s.kernel.nextConn ∧
        ∀ fd, s'.kernel.opened fd = s.kernel.opened fd ∨ (fd = ready.fd ∧ s'.kernel = s.kernel.close ready.fd) := by
  rcases hround.opened with ⟨haccepts, hopened⟩ | ⟨hnot, hopened⟩
  · exact Or.inl ⟨h.socketfd ▸ haccepts, hopened⟩
  · refine Or.inr ⟨fun haccepts => hnot ?_ (h.socketfd ▸ haccepts), hopened⟩
    rw [haccepts.1, h.entry]
    exact h.listening

variable {first : Conn} {count : ℕ} {fd : Fd} {conn : Conn}

/-- An event opens at most the next connection. -/
theorem Numbered.step (h : Numbered first count s) (hacc : Accounted lisfd created s) (hround : Round s ready s') :
    Numbered first (count + connections lisfd [ready]) s' := by
  have houtcome := Outcome.of_dispatch hacc.keyed hround.2
  rw [connections, List.countP_singleton]
  rcases hacc.accepts_iff houtcome with ⟨haccepts, hopened, hnext⟩ | ⟨hnot, hnext, hopened⟩
  · refine ⟨fun fd hfd => ?_, by rw [hnext, h.next, if_pos (by simpa using haccepts), Nat.add_assoc]⟩
    rw [hopened]
    split
    · rfl
    · next hne =>
      rcases houtcome.epoll fd with hsame | ⟨-, hnone⟩ | ⟨heq, -⟩
      · exact h.listed fd (hsame ▸ hfd)
      · rw [hnone] at hfd
        contradiction
      · exact absurd heq hne
  · refine ⟨fun fd hfd => ?_, by rw [hnext, h.next, if_neg (by simpa using hnot), Nat.add_zero]⟩
    have hepoll : s'.kernel.epoll fd = s.kernel.epoll fd := by
      rcases houtcome.epoll fd with hsame | ⟨-, hnone⟩ | ⟨-, haccepts, -⟩
      · exact hsame
      · rw [hnone] at hfd
        contradiction
      · exact absurd (hacc.socketfd ▸ haccepts) hnot
    rcases hopened fd with hsame | ⟨heq, hclose⟩
    · rw [hsame]
      exact h.listed fd (hepoll ▸ hfd)
    · rw [hclose, heq] at hfd
      simp [Kernel.close] at hfd

/-- A descriptor outside the epoll set is not closed, and so not used again. -/
theorem Unlisted.step (h : Unlisted fd conn s) (hacc : Accounted lisfd created s) (hround : Round s ready s')
    (hlisted : Listed s ready) : Unlisted fd conn s' := by
  have houtcome := Outcome.of_dispatch hacc.keyed hround.2
  have hfd : fd ≠ ready.fd := fun heq => by
    rw [Listed, ← heq, h.unlisted] at hlisted
    contradiction
  have haccept : ready.Accepts lisfd → fd ≠ ready.answers.accept := fun haccepts heq => by
    have hclosed := (hround.1.accept.resolve_left haccepts.2.2).2
    rw [← heq, h.opened] at hclosed
    contradiction
  constructor
  · rcases hacc.accepts_iff houtcome with ⟨haccepts, hopened, -⟩ | ⟨-, -, hopened⟩
    · rw [hopened, if_neg (haccept haccepts), h.opened]
    · rw [(hopened fd).resolve_right fun hclose => hfd hclose.1, h.opened]
  · rcases houtcome.epoll fd with hsame | ⟨-, hnone⟩ | ⟨heq, haccepts, -⟩
    · rw [hsame, h.unlisted]
    · exact hnone
    · exact absurd heq (haccept (hacc.socketfd ▸ haccepts))

/-- A connection that was accepted without getting into the epoll set. -/
theorem Numbered.unlisted (h : Numbered first count s) (hacc : Accounted lisfd created s) (hround : Round s ready s')
    (haccepts : ready.Accepts lisfd) (hfail : ready.answers.fcntl < 0 ∨ ready.answers.epollCtl < 0) :
    Unlisted ready.answers.accept (first + count) s' := by
  have houtcome := Outcome.of_dispatch hacc.keyed hround.2
  have hclosed := (hround.1.accept.resolve_left haccepts.2.2).2
  have hnone : s.kernel.epoll ready.answers.accept = none := by
    refine Option.eq_none_iff_forall_ne_some.mpr fun events hevents => ?_
    have hopen := h.listed ready.answers.accept (by rw [hevents]; rfl)
    rw [hclosed] at hopen
    contradiction
  have hopened : s'.kernel.opened ready.answers.accept = some (first + count) := by
    rcases hacc.accepts_iff houtcome with ⟨-, hopened, -⟩ | ⟨hnot, -⟩
    · rw [hopened, if_pos rfl, h.next]
    · exact absurd haccepts hnot
  refine ⟨hopened, ?_⟩
  cases houtcome with
  | unchanged => exact hnone
  | unfiled => exact hnone
  | filed _ hfcntl =>
    have hret := hfail.resolve_left (Int.not_lt.mpr hfcntl)
    rw [kernel_filed, if_pos hret]
    exact hnone
  | closed hother => exact absurd (haccepts.1.trans hacc.socketfd.symm) hother

/-! ## Batches and rounds -/

/-- The batches of a run, one event after another. -/
theorem Accounted.flatten (h : Accounted lisfd created s) (hrun : Run Turn s batches s') :
    Run (Restrict Round Listed) s batches.flatten s' := by
  induction hrun generalizing created with
  | nil => exact .nil
  | @cons s t u batch rest hturn _ ih =>
    obtain ⟨hpossible, hbatch⟩ := hturn
    exact (h.keyed.listed_rounds hpossible.distinct hpossible.listed hbatch).append (ih (h.rounds hbatch))

/-- No connection has been numbered at the start. -/
theorem Started.numbered (h : Started lisfd s) : Numbered s.kernel.nextConn 0 s := by
  have hinv := h.inv
  refine ⟨fun fd hlisted => ?_, rfl⟩
  obtain ⟨ptr, hptr⟩ := Option.isSome_iff_exists.mp (hinv.listed fd hlisted)
  obtain ⟨conn, hentry⟩ := hinv.entry fd ptr hptr
  rw [hentry.opened]
  rfl

/-- After some rounds. -/
theorem Numbered.rounds (h : Numbered first count s) (hacc : Accounted lisfd created s)
    (hrun : Run (Restrict Round Listed) s batch s') : Numbered first (count + connections lisfd batch) s' := by
  induction hrun generalizing created count with
  | nil => simpa [connections] using h
  | @cons s t u ready rest hround _ ih =>
    have hrest := ih (h.step hacc hround.1) (hacc.step hround.1)
    rwa [Nat.add_assoc, connections, connections, ← List.countP_append, List.singleton_append] at hrest

/-- In every run, whatever fails, a connection for which `fcntl` or `epoll_ctl` fails is still open at the end, under
its number, and not in the epoll set. -/
theorem unlisted_of_run (hstart : Started lisfd s) (hrun : Run Turn s batches s') {before after : List Ready}
    (hsplit : batches.flatten = before ++ ready :: after) (haccepts : ready.Accepts lisfd)
    (hfail : ready.answers.fcntl < 0 ∨ ready.answers.epollCtl < 0) :
    Unlisted ready.answers.accept (s.kernel.nextConn + connections lisfd before) s' := by
  obtain ⟨ptr, -, hacc⟩ := hstart.accounted
  obtain ⟨u, hbefore, hrest⟩ := Run.split (hsplit ▸ hacc.flatten hrun)
  have hnumbered := hstart.numbered.rounds hacc hbefore
  rw [Nat.zero_add] at hnumbered
  have haccu := hacc.rounds (hbefore.mono fun _ _ _ => And.left)
  cases hrest with
  | cons hround hafter =>
    refine (hafter.preserves (P := fun v => (∃ created, Accounted lisfd created v) ∧ Unlisted _ _ v)
      (fun v event v' hv hstep => ?_) ⟨⟨_, haccu.step hround.1⟩, hnumbered.unlisted haccu hround.1 haccepts hfail⟩).2
    obtain ⟨⟨created, hacc⟩, hunlisted⟩ := hv
    exact ⟨⟨_, hacc.step hstep.1⟩, hunlisted.step hacc hstep.1 hstep.2⟩

/-! ## A run -/

/-- Connections are accepted on 5 and 6, where `epoll_ctl` fails for 6; the one on 5 ends, and 5 is used again. -/
def failingBatches : List (List Ready) :=
  [[⟨3, epollIn, ⟨5, 0, 72, 0, 0⟩⟩], [⟨3, epollIn, ⟨6, 0, 80, -1, 0⟩⟩, ⟨5, epollIn, ⟨-1, 0, 0, 0, 0⟩⟩],
    [⟨3, epollIn, ⟨5, 0, 88, 0, 0⟩⟩]]

/-- A replay after registering the listening handle. -/
theorem turns_of_replay {α : Type*} (batches : List (List Ready)) (observe : State → State → α) {a : α}
    (h : (((new listenKernel).newHandle 64 3).registerEventHandle 64 eventAccept 0).bind (fun (ret, s) =>
      (replay checkTurn s batches).map fun s' => (ret, observe s s')) = some (0, a)) :
    ∃ s s', Started 3 s ∧ Run Turn s batches s' ∧ observe s s' = a := by
  obtain ⟨⟨ret, s⟩, hregister, hrun⟩ := Option.bind_eq_some_iff.mp h
  obtain ⟨s', hrun, hs'⟩ := Option.map_eq_some_iff.mp hrun
  obtain ⟨hret, hobserve⟩ := Prod.mk.inj hs'
  refine ⟨s, s', ⟨listenKernel, 64, rfl, fun _ => rfl, fun fd conn hconn => ?_, hret ▸ hregister⟩,
    Run.replay (fun _ _ _ => turn_of_check) hrun, hobserve⟩
  have hzero : fd = 3 ∧ 0 = conn := by simpa [listenKernel] using hconn
  exact hzero.2 ▸ Nat.one_pos

/-- The destructor leaves the second handle for descriptor 5. -/
theorem handles_of_run_failing : ∃ s s' s'', Started 3 s ∧ Run Turn s failingBatches s' ∧
    s'.destruct [3, 5, 6] = some s'' ∧ ∀ p, (s''.heap p).isSome ↔
      Superseded ((3, 64) :: creations 3 failingBatches.flatten) p := by
  obtain ⟨s, s', hstart, hrun, hptr⟩ := turns_of_replay failingBatches (fun s _ => s.getEventHandle 3)
    (a := some 64) (by decide)
  obtain ⟨-, -, htable, hdestruct⟩ := handles_of_run hstart hptr hrun rfl
  have hkeys : Keys s' [3, 5, 6] := ⟨by decide, fun fd => by
    have hcreated : (3, 64) :: creations 3 failingBatches.flatten = [(3, 64), (5, 72), (6, 80), (5, 88)] := by decide
    have hentry := htable fd
    rw [getEventHandle, hcreated] at hentry
    have hreused : (fd = 3 ∨ fd = 5 ∨ fd = 6) ↔ (fd = 3 ∨ fd = 5 ∨ fd = 6 ∨ fd = 5) := by grind
    rw [hentry, List.lookup_isSome_iff]
    simpa using hreused⟩
  obtain ⟨s'', hs'', hheap⟩ := hdestruct _ hkeys
  exact ⟨s, s', s'', hstart, hrun, hs'', hheap⟩

/-- Descriptor 6 stays open with connection 2. -/
theorem unlisted_of_run_failing : ∃ s s', Started 3 s ∧ Run Turn s failingBatches s' ∧ s.kernel.nextConn = 1 ∧
    Unlisted 6 (s.kernel.nextConn + connections 3 [⟨3, epollIn, ⟨5, 0, 72, 0, 0⟩⟩]) s' := by
  obtain ⟨s, s', hstart, hrun, hconn⟩ := turns_of_replay failingBatches (fun s _ => s.kernel.nextConn)
    (a := 1) (by decide)
  have hsplit : failingBatches.flatten = [⟨3, epollIn, ⟨5, 0, 72, 0, 0⟩⟩] ++ ⟨3, epollIn, ⟨6, 0, 80, -1, 0⟩⟩ ::
      [⟨5, epollIn, ⟨-1, 0, 0, 0, 0⟩⟩, ⟨3, epollIn, ⟨5, 0, 88, 0, 0⟩⟩] := rfl
  exact ⟨s, s', hstart, hrun, hconn, unlisted_of_run hstart hrun hsplit (by decide) (Or.inr (by decide))⟩

end State

end CppProject.Reactor
