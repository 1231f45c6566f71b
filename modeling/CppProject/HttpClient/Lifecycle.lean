import CppProject.HttpClient.AsyncClient

/-!
# The life of a request

From the moment a request is accepted its socket stays registered until it is reported; then its callback is
called, its descriptor deregistered and closed and its record freed. Each step concerns one request and
leaves the descriptors, the registrations and the records of all others alone. The invariant says how far
each request has come; here it is kept by the steps of the calls.
-/

namespace CppProject.HttpClient

open CString Transition

variable {C : Type*} {s s' : State C} {batch : List (Request C)} {r : Request C} {id : RequestId}

/-- The record of a request. -/
def Request.arg (r : Request C) : EpArg C := ⟨r.sockfd, r.memory, r.cb, r.id⟩

/-- What happens to a request from the callback on. -/
def lifecycle (r : Request C) (hostname result : Option (List UInt8)) : List (Event C) :=
  [.called r.cb hostname result, .deregistered, .closed, .freed]

/-- The number of things done for the request at the current event. -/
def Phase.done : Phase → ℕ
  | .start => 0
  | .received _ _ => 0
  | .called _ => 1
  | .deregistered _ => 2
  | .closed => 3

/-- The last thing done for a request ends its event. -/
theorem Phase.done_lt (phase : Phase) : phase.done < 4 := by
  cases phase <;> exact Nat.lt_of_sub_pos (Nat.succ_pos _)

/-- The local variable `sockfd`. -/
def Phase.sockfd : Phase → Option Fd
  | .start => none
  | .received sockfd _ => some sockfd
  | .called sockfd => some sockfd
  | .deregistered sockfd => some sockfd
  | .closed => none

/-- The descriptor a call has opened. -/
def Stage.sockfd : Stage → Option Fd
  | .entered => none
  | .opened sockfd => some sockfd
  | .connected sockfd => some sockfd
  | .allocated sockfd _ => some sockfd

/-- The record a call has allocated. -/
def Stage.eparg : Stage → Option Ptr
  | .allocated _ eparg => some eparg
  | _ => none

/-- Exactly the first `k` things have happened to a request, and it has what it needs for the others. -/
structure Progress (s : State C) (r : Request C) (hostname : Option (List UInt8)) (k : ℕ) : Prop where
  events : ∃ result, s.log r.id = (lifecycle r hostname result).take k
  registered : k < 2 → s.epoll r.sockfd = some r.eparg
  opened : s.fds r.sockfd = some r.id ↔ k < 3
  record : k < 4 → s.heap r.eparg = some r.arg

/-- An accepted request is as it was until its socket is reported. Then it is completed once, at the latest
when all events of that `epoll_wait` are handled. -/
structure Completes (s : State C) (r : Request C) (hostname : Option (List UInt8)) : Prop where
  progress : ∃ k ≤ 4, Progress s r hostname k
  unreported : r.id ∉ s.reported → Progress s r hostname 0
  handled : r.id ∈ s.reported → s.events = [] → Progress s r hostname 4

/-! ## Steps concern one request -/

/-- A new entry that belongs to the request. -/
theorem update_iff_of_ne {α β : Type*} [DecidableEq α] {f : α → Option β} {a b : α} {old new : Option β}
    {y : β} (ha : f a = old) (hold : old ≠ some y) (hnew : new ≠ some y) :
    Function.update f a new b = some y ↔ f b = some y := by
  by_cases hb : b = a
  · subst hb
    rw [Function.update_self, ha]
    exact iff_of_false hnew hold
  · rw [Function.update_of_ne hb]

/-- What is left after a removal is left elsewhere. -/
theorem ne_of_update_none_eq_some {α β : Type*} [DecidableEq α] {f : α → Option β} {a b : α} {y : β}
    (h : Function.update f a none b = some y) : b ≠ a := fun heq => by
  rw [heq, Function.update_self] at h
  contradiction

/-- What is left after a removal was there before. -/
theorem update_none_eq_some {α β : Type*} [DecidableEq α] {f : α → Option β} {a b : α} {y : β}
    (h : Function.update f a none b = some y) : f b = some y := by
  rwa [Function.update_of_ne (ne_of_update_none_eq_some h)] at h

/-- A step leaves alone what belongs to other requests. -/
structure Touches (s s' : State C) (id : RequestId) : Prop where
  log : ∀ id' ≠ id, s'.log id' = s.log id'
  fds : ∀ id' ≠ id, ∀ fd, s'.fds fd = some id' ↔ s.fds fd = some id'
  epoll : ∀ id' ≠ id, ∀ fd, s.fds fd = some id' → s'.epoll fd = s.epoll fd
  heap : ∀ id' ≠ id, ∀ p arg, s.heap p = some arg → arg.owner = id' → s'.heap p = some arg

/-- What another request's step touches is no progress of this one. -/
theorem Progress.frame {hostname : Option (List UInt8)} {k : ℕ} (h : Progress s r hostname k)
    (ht : Touches s s' id) (hid : r.id ≠ id) : Progress s' r hostname k where
  events := by rw [ht.log r.id hid]; exact h.events
  registered hk := by rw [ht.epoll r.id hid r.sockfd (h.opened.mpr (by omega))]; exact h.registered hk
  opened := (ht.fds r.id hid r.sockfd).trans h.opened
  record hk := ht.heap r.id hid r.eparg r.arg (h.record hk) rfl

/-- A step that changes nothing of the kind. -/
theorem Touches.of_same (hlog : s'.log = s.log) (hfds : s'.fds = s.fds) (hepoll : s'.epoll = s.epoll)
    (hheap : s'.heap = s.heap) : Touches s s' id where
  log _ _ := congrFun hlog _
  fds _ _ _ := by rw [hfds]
  epoll _ _ _ _ := congrFun hepoll _
  heap _ _ _ _ harg _ := by rwa [hheap]

/-- Requests have descriptors of their own. -/
theorem ne_of_owner_ne {fd fd' : Fd} {id' : RequestId} (hfd : s.fds fd = some id) (hfd' : s.fds fd' = some id')
    (hid : id' ≠ id) : fd' ≠ fd :=
  fun heq => hid (Option.some.inj (hfd'.symm.trans ((congrArg s.fds heq).trans hfd)))

/-- A step that changes the registration of the descriptor of the request. -/
theorem Touches.of_epoll {fd : Fd} {new : Option Ptr} (hopen : s.fds fd = some id) (hlog : s'.log = s.log)
    (hfds : s'.fds = s.fds) (hepoll : s'.epoll = Function.update s.epoll fd new) (hheap : s'.heap = s.heap) :
    Touches s s' id where
  log _ _ := congrFun hlog _
  fds _ _ _ := by rw [hfds]
  epoll id' hid fd' hfd' := by
    rw [hepoll, Function.update_of_ne (ne_of_owner_ne hopen hfd' hid)]
  heap _ _ _ _ harg _ := by rwa [hheap]

/-- Closing the descriptor of the request. -/
theorem Touches.of_close {fd : Fd} (hopen : s.fds fd = some id) (hlog : s'.log = s.log)
    (hfds : s'.fds = Function.update s.fds fd none) (hepoll : s'.epoll = Function.update s.epoll fd none)
    (hheap : s'.heap = s.heap) : Touches s s' id where
  log _ _ := congrFun hlog _
  fds id' hid fd' := by rw [hfds]; exact update_iff_of_ne hopen (by simpa using hid.symm) (by simp)
  epoll id' hid fd' hfd' := by
    rw [hepoll, Function.update_of_ne (ne_of_owner_ne hopen hfd' hid)]
  heap _ _ _ _ harg _ := by rwa [hheap]

/-- Freeing the record of the request. -/
theorem Touches.of_free {p : Ptr} {arg : EpArg C} (harg : s.heap p = some arg) (hlog : s'.log = s.log)
    (hfds : s'.fds = s.fds) (hepoll : s'.epoll = s.epoll) (hheap : s'.heap = Function.update s.heap p none) :
    Touches s s' arg.owner where
  log _ _ := congrFun hlog _
  fds _ _ _ := by rw [hfds]
  epoll _ _ _ _ := congrFun hepoll _
  heap id' hid p' arg' harg' howner := by
    have hne : p' ≠ p := fun heq => hid (by
      rw [heq, harg] at harg'
      rw [← howner, Option.some.inj harg'])
    rwa [hheap, Function.update_of_ne hne]

/-- Noting something about the request. -/
theorem Touches.note {event : Event C} (h : Touches s s' id) : Touches s (s'.note (some id) event) id where
  log id' hid := (Function.update_of_ne hid _ _).trans (h.log id' hid)
  fds := h.fds
  epoll := h.epoll
  heap := h.heap

/-! ## The invariant -/

/-- What is known of a call in progress. -/
structure CallOk (s : State C) (id : RequestId) (c : Call C) : Prop where
  old : id < s.fresh
  quiet : s.log id = [] ∧ id ∉ s.reported
  pending : ∀ r ∈ s.accepted, r.id ≠ id
  opened : ∀ fd, c.stage.sockfd = some fd → s.fds fd = some id
  filled : ∀ p, c.stage.eparg = some p →
    ∃ fd memory, c.stage.sockfd = some fd ∧ s.heap p = some ⟨fd, memory, c.cb, id⟩

/-- What is known of the calls and of the epoll set. -/
structure Books (s : State C) : Prop where
  distinct : ∀ r ∈ s.accepted, ∀ r' ∈ s.accepted, r.id = r'.id → r = r'
  old : ∀ r ∈ s.accepted, r.id < s.fresh
  quiet : ∀ id, s.fresh ≤ id → s.log id = [] ∧ id ∉ s.reported
  calls : ∀ id c, s.calls id = some c → CallOk s id c
  registered : ∀ fd p, s.epoll fd = some p →
    ∃ r ∈ s.accepted, r.sockfd = fd ∧ r.eparg = p ∧ s.fds fd = some r.id

/-- The requests whose events are still to be handled, and how far each accepted request has come. -/
structure Inv (s : State C) (batch : List (Request C)) : Prop extends Books s where
  events : s.events = batch.map Request.eparg
  taken : ∀ r ∈ batch, r ∈ s.accepted ∧ r.id ∈ s.reported
  nodup : batch.Nodup
  idle : batch = [] → s.phase = .start
  current : ∀ r, batch.head? = some r → Progress s r (string r.memory) s.phase.done ∧
    ∀ fd, s.phase.sockfd = some fd → fd = r.sockfd
  waiting : ∀ r ∈ batch.tail, Progress s r (string r.memory) 0
  others : ∀ r ∈ s.accepted, r ∉ batch → (r.id ∉ s.reported ∧ Progress s r (string r.memory) 0) ∨
    (r.id ∈ s.reported ∧ Progress s r (string r.memory) 4)

/-- A call keeps what is its own when another one's step touches nothing else. -/
theorem CallOk.frame {c : Call C} {id' : RequestId} (h : CallOk s id' c) (ht : Touches s s' id) (hid : id' ≠ id)
    (hfresh : s.fresh ≤ s'.fresh) (hreported : id' ∉ s'.reported) (haccepted : ∀ r ∈ s'.accepted, r.id ≠ id') :
    CallOk s' id' c where
  old := h.old.trans_le hfresh
  quiet := ⟨(ht.log id' hid).trans h.quiet.1, hreported⟩
  pending := haccepted
  opened fd hfd := (ht.fds id' hid fd).mpr (h.opened fd hfd)
  filled p hp := by
    obtain ⟨fd, memory, hfd, harg⟩ := h.filled p hp
    exact ⟨fd, memory, hfd, ht.heap id' hid p _ harg rfl⟩

/-- The books after a step that accepts no request and reports none. -/
theorem Books.frame (h : Books s) (ht : Touches s s' id) (hid : id < s.fresh)
    (hsame : s'.accepted = s.accepted ∧ s'.reported = s.reported ∧ s'.fresh = s.fresh)
    (hcalls : ∀ id' c, s'.calls id' = some c → id' = id ∧ CallOk s' id c ∨ id' ≠ id ∧ s.calls id' = some c)
    (hregistered : ∀ fd p, s'.epoll fd = some p → s.epoll fd = some p ∧ s'.fds fd = s.fds fd) : Books s' := by
  obtain ⟨haccepted, hreported, hfresh⟩ := hsame
  refine ⟨?_, ?_, fun id' hid' => ?_, fun id' c hc => ?_, fun fd p hp => ?_⟩
  · rw [haccepted]
    exact h.distinct
  · rw [haccepted, hfresh]
    exact h.old
  · rw [hfresh] at hid'
    rw [ht.log id' (hid.trans_le hid').ne', hreported]
    exact h.quiet id' hid'
  · rcases hcalls id' c hc with ⟨rfl, hok⟩ | ⟨hne, hold⟩
    · exact hok
    · have hok := h.calls id' c hold
      exact hok.frame ht hne hfresh.ge (hreported ▸ hok.quiet.2) (haccepted ▸ hok.pending)
  · obtain ⟨hold, hfds⟩ := hregistered fd p hp
    rw [haccepted, hfds]
    exact h.registered fd p hold

/-- Of two accepted requests with one number there is only one. -/
theorem Books.id_ne (h : Books s) {r' : Request C} (hr : r ∈ s.accepted) (hr' : r' ∈ s.accepted) (hne : r ≠ r') :
    r.id ≠ r'.id := fun heq => hne (h.distinct r hr r' hr' heq)

/-! ## The steps of a call -/

/-- The invariant after a step that leaves the callback thread alone. -/
theorem Inv.request (h : Inv s batch) (hb : Books s') (ht : Touches s s' id)
    (hid : ∀ r ∈ s.accepted, r.id ≠ id)
    (hsame : s'.events = s.events ∧ s'.phase = s.phase ∧ s'.reported = s.reported)
    (hkept : ∀ r ∈ s.accepted, r ∈ s'.accepted)
    (hnew : ∀ r ∈ s'.accepted, r ∈ s.accepted ∨
      r.id ∉ s.reported ∧ Progress s' r (string r.memory) 0) : Inv s' batch := by
  obtain ⟨hevents, hphase, hreported⟩ := hsame
  refine ⟨hb, hevents.trans h.events, fun r hr => ?_, h.nodup, fun hnil => hphase.trans (h.idle hnil),
    fun r hr => ?_, fun r hr => ?_, fun r hr hout => ?_⟩
  · rw [hreported]
    exact (h.taken r hr).imp_left (hkept r)
  · obtain ⟨hprogress, hfd⟩ := h.current r hr
    rw [hphase]
    exact ⟨hprogress.frame ht (hid r (h.taken r (List.mem_of_mem_head? hr)).1), hfd⟩
  · exact (h.waiting r hr).frame ht (hid r (h.taken r (List.mem_of_mem_tail hr)).1)
  · rw [hreported]
    rcases hnew r hr with hold | ⟨hunreported, hprogress⟩
    · exact (h.others r hold hout).imp (And.imp_right fun hp => hp.frame ht (hid r hold))
        (And.imp_right fun hp => hp.frame ht (hid r hold))
    · exact Or.inl ⟨hunreported, hprogress⟩

/-- A call comes to another stage, with a descriptor or a record of its own. -/
theorem Inv.setStage (h : Inv s batch) {c : Call C} (hc : s.calls id = some c) {stage : Stage}
    {fds : Fd → Option RequestId} {heap : Ptr → Option (EpArg C)}
    (hfds : ∀ id' ≠ id, ∀ fd, fds fd = some id' ↔ s.fds fd = some id')
    (hheap : ∀ p arg, s.heap p = some arg → heap p = some arg)
    (hregistered : ∀ fd p, s.epoll fd = some p → fds fd = s.fds fd)
    (hopened : ∀ fd, stage.sockfd = some fd → fds fd = some id)
    (hfilled : ∀ p, stage.eparg = some p →
      ∃ fd memory, stage.sockfd = some fd ∧ heap p = some ⟨fd, memory, c.cb, id⟩) :
    Inv ({ s with fds := fds, heap := heap }.setStage id c stage) batch := by
  have hok := h.calls id c hc
  have ht : Touches s ({ s with fds := fds, heap := heap }.setStage id c stage) id :=
    ⟨fun _ _ => rfl, hfds, fun _ _ _ _ => rfl, fun _ _ p arg harg _ => hheap p arg harg⟩
  refine h.request (h.toBooks.frame ht hok.old ⟨rfl, rfl, rfl⟩ (fun id' c' hc' => ?_)
    fun fd p hp => ⟨hp, hregistered fd p hp⟩) ht hok.pending ⟨rfl, rfl, rfl⟩ (fun _ hr => hr)
    fun _ hr => Or.inl hr
  change Function.update s.calls id (some { c with stage := stage }) id' = some c' at hc'
  by_cases hid : id' = id
  · rw [hid, Function.update_self] at hc'
    obtain rfl := Option.some.inj hc'
    exact Or.inl ⟨hid, hok.old, hok.quiet, hok.pending, hopened, hfilled⟩
  · rw [Function.update_of_ne hid] at hc'
    exact Or.inr ⟨hid, hc'⟩

/-- After a call has ended, the others are as they were. -/
theorem calls_endCall {id' : RequestId} {c : Call C} (h : (s.endCall id).calls id' = some c) :
    id' ≠ id ∧ s.calls id' = some c := by
  change Function.update s.calls id none id' = some c at h
  by_cases hid : id' = id
  · rw [hid, Function.update_self] at h
    contradiction
  · rw [Function.update_of_ne hid] at h
    exact ⟨hid, h⟩

/-- The state in which a request is accepted. -/
def State.accept (s : State C) (r : Request C) : State C :=
  { s with
    epoll := Function.update s.epoll r.sockfd (some r.eparg)
    accepted := r :: s.accepted }.endCall r.id

/-- An accepted request touches only its own descriptor and record. -/
theorem touches_accept (hopen : s.fds r.sockfd = some r.id) : Touches s (s.accept r) r.id :=
  .of_epoll hopen rfl rfl rfl rfl

/-- The books with one more request, the number of which no other has. -/
theorem Books.accept (h : Books s) {c : Call C} (hok : CallOk s r.id c) (hopen : s.fds r.sockfd = some r.id) :
    Books (s.accept r) := by
  refine ⟨fun r₁ hr₁ r₂ hr₂ heq => ?_, fun r₁ hr₁ => ?_, h.quiet, fun id' c' hc' => ?_, fun fd p hp => ?_⟩
  · rcases List.mem_cons.mp hr₁ with rfl | hold₁ <;> rcases List.mem_cons.mp hr₂ with rfl | hold₂
    · rfl
    · exact absurd heq.symm (hok.pending r₂ hold₂)
    · exact absurd heq (hok.pending r₁ hold₁)
    · exact h.distinct r₁ hold₁ r₂ hold₂ heq
  · rcases List.mem_cons.mp hr₁ with rfl | hr₁
    · exact hok.old
    · exact h.old r₁ hr₁
  · obtain ⟨hne, hold⟩ := calls_endCall hc'
    have hok' := h.calls id' c' hold
    exact hok'.frame (touches_accept hopen) hne le_rfl hok'.quiet.2
      (List.forall_mem_cons.mpr ⟨hne.symm, hok'.pending⟩)
  · change Function.update s.epoll r.sockfd (some r.eparg) fd = some p at hp
    by_cases heq : fd = r.sockfd
    · rw [heq, Function.update_self] at hp
      exact ⟨r, List.mem_cons_self, heq.symm, Option.some.inj hp, heq ▸ hopen⟩
    · rw [Function.update_of_ne heq] at hp
      obtain ⟨r₁, hr₁, hfacts⟩ := h.registered fd p hp
      exact ⟨r₁, List.mem_cons_of_mem r hr₁, hfacts⟩

/-- `epoll_ctl` adds the socket of a call, and its request is accepted. -/
theorem Inv.accept (h : Inv s batch) {c : Call C} (hc : s.calls r.id = some c)
    (hopen : s.fds r.sockfd = some r.id) (hrecord : s.heap r.eparg = some r.arg) :
    Inv (s.accept r) batch := by
  have hok := h.calls r.id c hc
  refine h.request (h.toBooks.accept hok hopen) (touches_accept hopen) hok.pending ⟨rfl, rfl, rfl⟩
    (fun r₁ hr₁ => List.mem_cons_of_mem r hr₁) fun r₁ hr₁ => ?_
  rcases List.mem_cons.mp hr₁ with rfl | hr₁
  · exact Or.inr ⟨hok.quiet.2, ⟨none, hok.quiet.1⟩, fun _ => Function.update_self _ _ _,
      iff_of_true hopen (by decide), fun _ => hrecord⟩
  · exact Or.inl hr₁

/-- A step of a call keeps the invariant. -/
theorem Inv.requestStep (h : Inv s batch) {c : Call C} (hc : s.calls id = some c) {label : RequestLabel}
    (hstep : s.requestStep id c label = some s') : Inv s' batch := by
  have hok := h.calls id c hc
  cases label with
  | reject =>
    obtain rfl := Option.some.inj hstep
    have ht : Touches s (s.endCall id) id := .of_same rfl rfl rfl rfl
    exact h.request (h.toBooks.frame ht hok.old ⟨rfl, rfl, rfl⟩ (fun _ _ hc' => Or.inr (calls_endCall hc'))
      fun _ _ hp => ⟨hp, rfl⟩) ht hok.pending ⟨rfl, rfl, rfl⟩ (fun _ hr => hr) fun _ hr => Or.inl hr
  | socket sockfd =>
    rw [State.requestStep] at hstep
    split at hstep
    · obtain ⟨hfree, hstep⟩ := Option.ite_none_right_eq_some.mp hstep
      obtain rfl := Option.some.inj hstep
      refine h.setStage hc (fun id' hid fd => ?_) (fun _ _ harg => harg) (fun fd p hp => ?_)
        (fun fd hfd => ?_) (fun p hp => nomatch hp)
      · exact update_iff_of_ne hfree (by simp) (by simpa using hid.symm)
      · obtain ⟨r, -, -, -, hopen⟩ := h.registered fd p hp
        exact Function.update_of_ne (fun heq => by simp [heq, hfree] at hopen) _ _
      · obtain rfl : sockfd = fd := Option.some.inj hfd
        exact Function.update_self _ _ _
    · contradiction
  | connect =>
    rw [State.requestStep] at hstep
    split at hstep
    · next sockfd hstage =>
      obtain ⟨-, -, rfl⟩ := Option.map_eq_some_iff.mp hstep
      refine h.setStage hc (fun _ _ _ => Iff.rfl) (fun _ _ harg => harg) (fun _ _ _ => rfl) (fun fd hfd => ?_)
        (fun p hp => nomatch hp)
      exact hok.opened fd (by rw [hstage]; exact hfd)
    · contradiction
  | malloc eparg memory =>
    rw [State.requestStep] at hstep
    split at hstep
    · next sockfd hstage =>
      obtain ⟨⟨hfree, -⟩, hstep⟩ := Option.ite_none_right_eq_some.mp hstep
      obtain rfl := Option.some.inj hstep
      refine h.setStage hc (fun _ _ _ => Iff.rfl) (fun p arg harg => ?_) (fun _ _ _ => rfl) (fun fd hfd => ?_)
        (fun p hp => ?_)
      · rw [Function.update_of_ne fun heq => by simp [heq, hfree] at harg]
        exact harg
      · exact hok.opened fd (by rw [hstage]; exact hfd)
      · obtain rfl : eparg = p := Option.some.inj hp
        exact ⟨sockfd, memory, rfl, Function.update_self _ _ _⟩
    · contradiction
  | add =>
    rw [State.requestStep] at hstep
    split at hstep
    · next sockfd eparg hstage =>
      obtain ⟨arg, harg, hstep⟩ := Option.bind_eq_some_iff.mp hstep
      obtain ⟨-, hstep⟩ := Option.ite_none_right_eq_some.mp hstep
      obtain rfl := Option.some.inj hstep
      have hopen : s.fds sockfd = some id := hok.opened sockfd (by rw [hstage]; rfl)
      obtain ⟨fd, memory, hfd, hfilled⟩ := hok.filled eparg (by rw [hstage]; rfl)
      obtain rfl : sockfd = fd := Option.some.inj (by rw [← hfd, hstage]; rfl)
      obtain rfl := Option.some.inj (hfilled.symm.trans harg)
      exact h.accept (r := ⟨id, c.hostname, c.cb, sockfd, eparg, memory⟩) hc hopen hfilled
    · contradiction

end CppProject.HttpClient
