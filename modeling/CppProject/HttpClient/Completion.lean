import CppProject.HttpClient.Lifecycle

/-!
# Every request completes once

The callback thread handles the events of one `epoll_wait` in turn, and each of its steps brings the current
request one thing further. So in every run each accepted request completes exactly once. The hostname passed
to its callback is what `malloc` left in its record.
-/

namespace CppProject.HttpClient

open CString Transition

variable {C : Type*} {s s' : State C} {batch : List (Request C)} {r : Request C} {id : RequestId}

/-! ## The steps of the callback thread -/

section Event

variable {rest : List (Request C)}

/-- The current request is accepted. -/
theorem Inv.head_accepted (h : Inv s (r :: rest)) : r ∈ s.accepted := (h.taken r List.mem_cons_self).1

/-- The books after a step at the event of a request. -/
theorem Inv.books_event (h : Inv s (r :: rest)) (ht : Touches s s' r.id)
    (hsame : s'.accepted = s.accepted ∧ s'.reported = s.reported ∧ s'.fresh = s.fresh)
    (hcalls : s'.calls = s.calls)
    (hregistered : ∀ fd p, s'.epoll fd = some p → s.epoll fd = some p ∧ s'.fds fd = s.fds fd) : Books s' := by
  refine h.toBooks.frame ht (h.old r h.head_accepted) hsame (fun id' c hc => Or.inr ?_) hregistered
  rw [hcalls] at hc
  exact ⟨((h.calls id' c hc).pending r h.head_accepted).symm, hc⟩

/-- The other requests after a step at the event of a request. -/
theorem Inv.others_event (h : Inv s (r :: rest)) (ht : Touches s s' r.id)
    (hreported : s'.reported = s.reported) {r' : Request C} (hr' : r' ∈ s.accepted) (hout : r' ∉ r :: rest) :
    (r'.id ∉ s'.reported ∧ Progress s' r' (string r'.memory) 0) ∨
      (r'.id ∈ s'.reported ∧ Progress s' r' (string r'.memory) 4) := by
  have hid : r'.id ≠ r.id :=
    h.id_ne hr' h.head_accepted fun heq => hout (heq ▸ List.mem_cons_self)
  rw [hreported]
  exact (h.others r' hr' hout).imp (And.imp_right fun hp => hp.frame ht hid)
    (And.imp_right fun hp => hp.frame ht hid)

/-- The requests that wait behind the current one. -/
theorem Inv.waiting_event (h : Inv s (r :: rest)) (ht : Touches s s' r.id) {r' : Request C} (hr' : r' ∈ rest) :
    Progress s' r' (string r'.memory) 0 := by
  have hne : r' ≠ r := fun heq => (List.nodup_cons.mp h.nodup).1 (heq ▸ hr')
  exact (h.waiting r' hr').frame ht
    (h.id_ne (h.taken r' (List.mem_cons_of_mem r hr')).1 h.head_accepted hne)

/-- The invariant after a step at the event of a request. -/
theorem Inv.event (h : Inv s (r :: rest)) (ht : Touches s s' r.id)
    (hsame : s'.accepted = s.accepted ∧ s'.reported = s.reported ∧ s'.fresh = s.fresh)
    (hcalls : s'.calls = s.calls) (hevents : s'.events = s.events)
    (hregistered : ∀ fd p, s'.epoll fd = some p → s.epoll fd = some p ∧ s'.fds fd = s.fds fd)
    (hfd : ∀ fd, s'.phase.sockfd = some fd → fd = r.sockfd) (k : ℕ) (hdone : s'.phase.done = k)
    (hprogress : Progress s' r (string r.memory) k) : Inv s' (r :: rest) where
  toBooks := h.books_event ht hsame hcalls hregistered
  events := hevents.trans h.events
  taken r' hr' := by rw [hsame.1, hsame.2.1]; exact h.taken r' hr'
  nodup := h.nodup
  idle hnil := nomatch hnil
  current r' hr' := by obtain rfl := Option.some.inj hr'; exact ⟨hdone ▸ hprogress, hfd⟩
  waiting r' hr' := h.waiting_event ht hr'
  others r' hr' hout := h.others_event ht hsame.2.1 (hsame.1 ▸ hr') hout

/-- The event of a request is handled. -/
theorem Inv.handled (h : Inv s (r :: rest)) (ht : Touches s s' r.id)
    (hsame : s'.accepted = s.accepted ∧ s'.reported = s.reported ∧ s'.fresh = s.fresh)
    (hcalls : s'.calls = s.calls) (hevents : s'.events = rest.map Request.eparg) (hphase : s'.phase = .start)
    (hregistered : ∀ fd p, s'.epoll fd = some p → s.epoll fd = some p ∧ s'.fds fd = s.fds fd)
    (hprogress : Progress s' r (string r.memory) 4) : Inv s' rest where
  toBooks := h.books_event ht hsame hcalls hregistered
  events := hevents
  taken r' hr' := by rw [hsame.1, hsame.2.1]; exact h.taken r' (List.mem_cons_of_mem r hr')
  nodup := (List.nodup_cons.mp h.nodup).2
  idle _ := hphase
  current r' hr' := by
    rw [hphase]
    exact ⟨h.waiting_event ht (List.mem_of_mem_head? hr'), fun fd hfd => nomatch hfd⟩
  waiting r' hr' := h.waiting_event ht (List.mem_of_mem_tail hr')
  others r' hr' hout := by
    by_cases heq : r' = r
    · rw [heq, hsame.2.1]
      exact Or.inr ⟨(h.taken r List.mem_cons_self).2, hprogress⟩
    · exact h.others_event ht hsame.2.1 (hsame.1 ▸ hr') (List.not_mem_cons_of_ne_of_not_mem heq hout)

/-- Noting what has been done brings the log of a request one thing further. -/
theorem log_note {event : Event C} {k : ℕ} {hostname result : Option (List UInt8)}
    (hlog : s.log r.id = (lifecycle r hostname result).take k)
    (hnext : (lifecycle r hostname result).take (k + 1) = (lifecycle r hostname result).take k ++ [event]) :
    (s.note (some r.id) event).log r.id = (lifecycle r hostname result).take (k + 1) := by
  change Function.update s.log r.id (s.log r.id ++ [event]) r.id = _
  rw [Function.update_self, hlog, hnext]

/-- `recv` reads the descriptor in the record of the current request. -/
theorem Inv.recv (h : Inv s (r :: rest)) {bytes : List UInt8}
    (hstep : s.eventStep r.eparg (rest.map Request.eparg) (.recv bytes) = some s') : Inv s' (r :: rest) := by
  obtain ⟨hcurrent, -⟩ := h.current r rfl
  rw [State.eventStep] at hstep
  split at hstep
  · next hphase =>
    rw [hphase] at hcurrent
    rw [hcurrent.record (by decide), Option.bind_some] at hstep
    obtain ⟨buffer, -, rfl⟩ := Option.map_eq_some_iff.mp hstep
    exact h.event (.of_same rfl rfl rfl rfl) ⟨rfl, rfl, rfl⟩ rfl rfl (fun _ _ hp => ⟨hp, rfl⟩)
      (fun fd hfd => (Option.some.inj hfd).symm) 0 rfl
      ⟨hcurrent.events, hcurrent.registered, hcurrent.opened, hcurrent.record⟩
  · contradiction

/-- The callback of the current request is called. -/
theorem Inv.callback (h : Inv s (r :: rest))
    (hstep : s.eventStep r.eparg (rest.map Request.eparg) .callback = some s') : Inv s' (r :: rest) := by
  obtain ⟨hcurrent, hfd⟩ := h.current r rfl
  rw [State.eventStep] at hstep
  split at hstep
  · next sockfd buffer hphase =>
    rw [hphase] at hcurrent hfd
    change Progress s r (string r.memory) 0 at hcurrent
    have hopen : s.fds r.sockfd = some r.id := hcurrent.opened.mpr (by decide)
    have hrecord : s.heap r.eparg = some r.arg := hcurrent.record (by decide)
    obtain ⟨result, hlog⟩ := hcurrent.events
    rw [hrecord, Option.map_some] at hstep
    obtain rfl := Option.some.inj hstep
    exact h.event (.note (.of_same rfl rfl rfl rfl)) ⟨rfl, rfl, rfl⟩ rfl rfl (fun _ _ hp => ⟨hp, rfl⟩) hfd 1 rfl
      ⟨⟨string buffer, log_note (k := 0) hlog rfl⟩, fun _ => hcurrent.registered (by decide),
        iff_of_true hopen (by decide), fun _ => hrecord⟩
  · contradiction

/-- The socket of the current request is taken out of the epoll set. -/
theorem Inv.del (h : Inv s (r :: rest))
    (hstep : s.eventStep r.eparg (rest.map Request.eparg) .del = some s') : Inv s' (r :: rest) := by
  obtain ⟨hcurrent, hfd⟩ := h.current r rfl
  rw [State.eventStep] at hstep
  split at hstep
  · next sockfd hphase =>
    rw [hphase] at hcurrent hfd
    change Progress s r (string r.memory) 1 at hcurrent
    obtain rfl : sockfd = r.sockfd := hfd sockfd rfl
    have hopen : s.fds r.sockfd = some r.id := hcurrent.opened.mpr (by decide)
    obtain ⟨result, hlog⟩ := hcurrent.events
    rw [hcurrent.registered (by decide), Option.bind_some, hopen] at hstep
    obtain rfl := Option.some.inj hstep
    exact h.event (.note (.of_epoll hopen rfl rfl rfl rfl)) ⟨rfl, rfl, rfl⟩ rfl rfl
      (fun fd p hp => ⟨update_none_eq_some hp, rfl⟩) hfd 2 rfl
      ⟨⟨result, log_note hlog rfl⟩, fun hlt => absurd hlt (lt_irrefl 2), iff_of_true hopen (by decide),
        fun _ => hcurrent.record (by decide)⟩
  · contradiction

/-- The descriptor of the current request is closed. -/
theorem Inv.close (h : Inv s (r :: rest))
    (hstep : s.eventStep r.eparg (rest.map Request.eparg) .close = some s') : Inv s' (r :: rest) := by
  obtain ⟨hcurrent, hfd⟩ := h.current r rfl
  rw [State.eventStep] at hstep
  split at hstep
  · next sockfd hphase =>
    rw [hphase] at hcurrent hfd
    change Progress s r (string r.memory) 2 at hcurrent
    obtain rfl : sockfd = r.sockfd := hfd sockfd rfl
    have hopen : s.fds r.sockfd = some r.id := hcurrent.opened.mpr (by decide)
    obtain ⟨result, hlog⟩ := hcurrent.events
    rw [hopen] at hstep
    obtain rfl := Option.some.inj hstep
    have hshut : Function.update s.fds r.sockfd none r.sockfd ≠ some r.id := by
      rw [Function.update_self]
      exact (Option.some_ne_none r.id).symm
    exact h.event (.note (.of_close hopen rfl rfl rfl rfl)) ⟨rfl, rfl, rfl⟩ rfl rfl
      (fun fd p hp => ⟨update_none_eq_some hp, Function.update_of_ne (ne_of_update_none_eq_some hp) _ _⟩)
      (fun fd hfd => nomatch hfd) 3 rfl
      ⟨⟨result, log_note hlog rfl⟩, fun hlt => absurd hlt (by decide), iff_of_false hshut (by decide),
        fun _ => hcurrent.record (by decide)⟩
  · contradiction

/-- The record of the current request is freed. -/
theorem Inv.free (h : Inv s (r :: rest))
    (hstep : s.eventStep r.eparg (rest.map Request.eparg) .free = some s') : Inv s' rest := by
  obtain ⟨hcurrent, -⟩ := h.current r rfl
  rw [State.eventStep] at hstep
  split at hstep
  · next hphase =>
    rw [hphase] at hcurrent
    change Progress s r (string r.memory) 3 at hcurrent
    have hrecord : s.heap r.eparg = some r.arg := hcurrent.record (by decide)
    have hshut : s.fds r.sockfd ≠ some r.id := fun hopen => absurd (hcurrent.opened.mp hopen) (by decide)
    obtain ⟨result, hlog⟩ := hcurrent.events
    rw [hrecord, Option.map_some] at hstep
    obtain rfl := Option.some.inj hstep
    exact h.handled (.note (.of_free hrecord rfl rfl rfl rfl)) ⟨rfl, rfl, rfl⟩ rfl rfl rfl
      (fun _ _ hp => ⟨hp, rfl⟩)
      ⟨⟨result, log_note hlog rfl⟩, fun hlt => absurd hlt (by decide), iff_of_false hshut (by decide),
        fun hlt => absurd hlt (by decide)⟩
  · contradiction

/-- A step of the callback thread at an event keeps the invariant. -/
theorem Inv.eventStep (h : Inv s (r :: rest)) {label : EventLabel}
    (hstep : s.eventStep r.eparg (rest.map Request.eparg) label = some s') : ∃ batch', Inv s' batch' := by
  cases label with
  | recv bytes => exact ⟨r :: rest, h.recv hstep⟩
  | callback => exact ⟨r :: rest, h.callback hstep⟩
  | del => exact ⟨r :: rest, h.del hstep⟩
  | close => exact ⟨r :: rest, h.close hstep⟩
  | free => exact ⟨rest, h.free hstep⟩

end Event

/-! ## Every run -/

/-- The requests whose sockets are reported. -/
theorem Books.reported_requests (h : Books s) {ready : List Fd} (hready : ∀ fd ∈ ready, (s.epoll fd).isSome) :
    ∃ batch : List (Request C), batch.map Request.sockfd = ready ∧
      ready.filterMap s.epoll = batch.map Request.eparg ∧ ready.filterMap s.fds = batch.map Request.id ∧
      ∀ r ∈ batch, r ∈ s.accepted ∧ s.fds r.sockfd = some r.id := by
  induction ready with
  | nil => exact ⟨[], rfl, rfl, rfl, by simp⟩
  | cons fd ready ih =>
    obtain ⟨hfd, hready⟩ := List.forall_mem_cons.mp hready
    obtain ⟨batch, hfds, hepargs, hids, hbatch⟩ := ih hready
    obtain ⟨p, hp⟩ := Option.isSome_iff_exists.mp hfd
    obtain ⟨r, hr, rfl, rfl, hopen⟩ := h.registered fd p hp
    refine ⟨r :: batch, by rw [List.map_cons, hfds], ?_, ?_, List.forall_mem_cons.mpr ⟨⟨hr, hopen⟩, hbatch⟩⟩
    · rw [List.filterMap_cons_some hp, hepargs, List.map_cons]
    · rw [List.filterMap_cons_some hopen, hids, List.map_cons]

/-- `epoll_wait` reports some of the requests that are as they were. -/
theorem Inv.wait (h : Inv s batch) (hidle : s.events = []) {ready : List Fd} (hnodup : ready.Nodup)
    (hready : ∀ fd ∈ ready, (s.epoll fd).isSome) : ∃ batch', Inv { s with
      events := ready.filterMap s.epoll, reported := ready.filterMap s.fds ++ s.reported } batch' := by
  obtain rfl : batch = [] := List.map_eq_nil_iff.mp (h.events.symm.trans hidle)
  obtain ⟨batch', hfds, hepargs, hids, hbatch⟩ := h.reported_requests hready
  have hfirst : ∀ r ∈ batch', Progress s r (string r.memory) 0 := fun r hr => by
    obtain ⟨hr, hopen⟩ := hbatch r hr
    rcases h.others r hr List.not_mem_nil with ⟨-, hprogress⟩ | ⟨-, hprogress⟩
    · exact hprogress
    · exact absurd (hprogress.opened.mp hopen) (by decide)
  have hphase : s.phase = .start := h.idle rfl
  have hreported : ∀ id, (∀ r ∈ batch', r.id ≠ id) → id ∉ s.reported →
      id ∉ ready.filterMap s.fds ++ s.reported := fun id hne hold hmem => by
    rw [hids, List.mem_append, List.mem_map] at hmem
    rcases hmem with ⟨r, hr, heq⟩ | hmem
    · exact hne r hr heq
    · exact hold hmem
  refine ⟨batch', ⟨h.distinct, h.old, fun id hid => ?_, fun id c hc => ?_, h.registered⟩, hepargs, fun r hr => ?_,
    List.Nodup.of_map Request.sockfd (hfds ▸ hnodup), fun _ => hphase, fun r hr => ?_, fun r hr => ?_,
    fun r hr hout => ?_⟩
  · obtain ⟨hlog, hold⟩ := h.quiet id hid
    exact ⟨hlog, hreported id (fun r hr => ((h.old r (hbatch r hr).1).trans_le hid).ne) hold⟩
  · have hok := h.calls id c hc
    exact ⟨hok.old, ⟨hok.quiet.1, hreported id (fun r hr => hok.pending r (hbatch r hr).1) hok.quiet.2⟩,
      hok.pending, hok.opened, hok.filled⟩
  · exact ⟨(hbatch r hr).1, List.mem_append_left _ (hids ▸ List.mem_map_of_mem hr)⟩
  · have hprogress := hfirst r (List.mem_of_mem_head? hr)
    rw [hphase]
    exact ⟨⟨hprogress.events, hprogress.registered, hprogress.opened, hprogress.record⟩, fun fd hfd => nomatch hfd⟩
  · have hprogress := hfirst r (List.mem_of_mem_tail hr)
    exact ⟨hprogress.events, hprogress.registered, hprogress.opened, hprogress.record⟩
  · have hne : ∀ r' ∈ batch', r'.id ≠ r.id := fun r' hr' =>
      h.id_ne (hbatch r' hr').1 hr fun heq => hout (heq ▸ hr')
    rcases h.others r hr List.not_mem_nil with ⟨hunreported, hprogress⟩ | ⟨hold, hprogress⟩
    · exact Or.inl ⟨hreported r.id hne hunreported,
        hprogress.events, hprogress.registered, hprogress.opened, hprogress.record⟩
    · exact Or.inr ⟨List.mem_append_right _ hold,
        hprogress.events, hprogress.registered, hprogress.opened, hprogress.record⟩

/-- A new call has a number of its own. -/
theorem Inv.call (h : Inv s batch) (hostname source : List UInt8) (cb : C) : Inv { s with
    calls := Function.update s.calls s.fresh (some ⟨hostname, source, cb, .entered⟩)
    fresh := s.fresh + 1 } batch := by
  generalize hs' : ({ s with
    calls := Function.update s.calls s.fresh (some ⟨hostname, source, cb, .entered⟩)
    fresh := s.fresh + 1 } : State C) = s'
  have ht : Touches s s' s.fresh := .of_same (hs' ▸ rfl) (hs' ▸ rfl) (hs' ▸ rfl) (hs' ▸ rfl)
  have hnew : ∀ r ∈ s.accepted, r.id ≠ s.fresh := fun r hr => (h.old r hr).ne
  refine h.request ?_ ht hnew ⟨hs' ▸ rfl, hs' ▸ rfl, hs' ▸ rfl⟩ (fun _ hr => hs' ▸ hr)
    fun _ hr => Or.inl (by rw [← hs'] at hr; exact hr)
  rw [← hs'] at ht ⊢
  refine ⟨h.distinct, fun r hr => (h.old r hr).trans (Nat.lt_succ_self _),
    fun id hid => h.quiet id (Nat.le_of_succ_le hid), fun id c hc => ?_, h.registered⟩
  change Function.update s.calls s.fresh (some ⟨hostname, source, cb, .entered⟩) id = some c at hc
  by_cases hid : id = s.fresh
  · rw [hid, Function.update_self] at hc
    obtain rfl := Option.some.inj hc
    rw [hid]
    exact ⟨Nat.lt_succ_self _, h.quiet s.fresh le_rfl, hnew, fun _ hfd => (nomatch hfd), fun _ hp => (nomatch hp)⟩
  · rw [Function.update_of_ne hid] at hc
    have hok := h.calls id c hc
    exact hok.frame ht hid (Nat.le_succ _) hok.quiet.2 hok.pending

/-- Every step keeps the invariant. -/
theorem Inv.step (h : Inv s batch) {label : Label C} (hstep : Step s label s') : ∃ batch', Inv s' batch' := by
  cases label with
  | call hostname source cb =>
    obtain rfl := Option.some.inj hstep
    exact ⟨batch, h.call hostname source cb⟩
  | request id label =>
    obtain ⟨c, hc, hstep⟩ := Option.bind_eq_some_iff.mp hstep
    exact ⟨batch, h.requestStep hc hstep⟩
  | wait ready =>
    obtain ⟨⟨hidle, hnodup, -, hready⟩, hstep⟩ := Option.ite_none_right_eq_some.mp hstep
    obtain rfl := Option.some.inj hstep
    exact h.wait hidle hnodup hready
  | event label =>
    rw [Step, State.next, h.events] at hstep
    cases batch with
    | nil => contradiction
    | cons r rest => exact h.eventStep hstep

/-- No request, no event. -/
theorem inv_init : Inv (State.init : State C) [] where
  distinct _ hr := nomatch hr
  old _ hr := nomatch hr
  quiet _ _ := ⟨rfl, List.not_mem_nil⟩
  calls _ _ hc := nomatch hc
  registered _ _ hp := nomatch hp
  events := rfl
  taken _ hr := nomatch hr
  nodup := List.nodup_nil
  idle _ := rfl
  current _ hr := nomatch hr
  waiting _ hr := nomatch hr
  others _ hr := nomatch hr

/-- Every reachable state meets the invariant, with the requests whose events are being handled. -/
theorem Reachable.inv (h : Transition.Reachable (· = State.init) Step s) : ∃ batch, Inv s batch :=
  h.invariant (P := fun s => ∃ batch, Inv s batch) (fun _ hs => ⟨[], hs ▸ inv_init⟩)
    fun _ _ _ ⟨_, hinv⟩ hstep => hinv.step hstep

/-- Every accepted request completes, with the string that its record held. -/
theorem Inv.completes (h : Inv s batch) (hr : r ∈ s.accepted) : Completes s r (string r.memory) := by
  by_cases hmem : r ∈ batch
  · obtain ⟨-, hreported⟩ := h.taken r hmem
    refine ⟨?_, fun hout => absurd hreported hout, fun _ hidle => ?_⟩
    · cases batch with
      | nil => exact absurd hmem List.not_mem_nil
      | cons first rest =>
        rcases List.mem_cons.mp hmem with rfl | hmem
        · exact ⟨s.phase.done, s.phase.done_lt.le, (h.current r rfl).1⟩
        · exact ⟨0, by decide, h.waiting r hmem⟩
    · have hnil : batch = [] := List.map_eq_nil_iff.mp (h.events.symm.trans hidle)
      exact absurd (hnil ▸ hmem) List.not_mem_nil
  · rcases h.others r hr hmem with ⟨hout, hprogress⟩ | ⟨hin, hprogress⟩
    · exact ⟨⟨0, by decide, hprogress⟩, fun _ => hprogress, fun hin => absurd hin hout⟩
    · exact ⟨⟨4, le_rfl, hprogress⟩, fun hout => absurd hin hout, fun _ _ => hprogress⟩

/-- The callback thread can always go on with its events. -/
theorem Inv.exists_event (h : Inv s batch) (hevents : s.events ≠ []) :
    ∃ label s', Step s (.event label) s' := by
  cases batch with
  | nil => exact absurd h.events hevents
  | cons r rest =>
    have hcurrent := (h.current r rfl).1
    have hrecord : s.heap r.eparg = some r.arg := hcurrent.record s.phase.done_lt
    simp only [Step, State.next, h.events, List.map_cons]
    cases hphase : s.phase with
    | start => exact ⟨.recv [], by simp [State.eventStep, hphase, hrecord, recvBuffer, write]⟩
    | received sockfd buffer => exact ⟨.callback, by simp [State.eventStep, hphase, hrecord]⟩
    | called sockfd => exact ⟨.del, by simp [State.eventStep, hphase]⟩
    | deregistered sockfd => exact ⟨.close, by simp [State.eventStep, hphase]⟩
    | closed => exact ⟨.free, by simp [State.eventStep, hphase, hrecord]⟩

/-! ## The hostname passed -/

/-- A request for which nothing has been done is not bound to a hostname yet. -/
theorem Progress.of_quiet {hostname : Option (List UInt8)} {k : ℕ} (h : Progress s r hostname k)
    (hlog : s.log r.id = []) (hostname' : Option (List UInt8)) : Progress s r hostname' k := by
  obtain ⟨result, hevents⟩ := h.events
  obtain rfl : k = 0 :=
    (List.take_eq_nil_iff.mp (hevents.symm.trans hlog)).resolve_right (List.cons_ne_nil _ _)
  exact ⟨⟨result, hlog⟩, h.registered, h.opened, h.record⟩

/-- Once the callback is called there is only one hostname it got. -/
theorem Progress.hostname_eq {hostname hostname' : Option (List UInt8)} {k k' : ℕ}
    (h : Progress s r hostname k) (h' : Progress s r hostname' k') (hlog : s.log r.id ≠ []) :
    hostname = hostname' := by
  obtain ⟨result, hevents⟩ := h.events
  obtain ⟨result', hevents'⟩ := h'.events
  cases k with
  | zero => exact absurd hevents hlog
  | succ k =>
    cases k' with
    | zero => exact absurd hevents' hlog
    | succ k' =>
      have hcalled := (List.cons.inj (hevents.symm.trans hevents')).1
      exact (Event.called.inj hcalled).2.1

/-- In every state reached, the callback thread can finish its events, and all accepted requests complete
once and as themselves if and only if, for each callback called, the memory of the record held the hostname
of the request before anything was written to it. -/
theorem completes_iff (h : Transition.Reachable (· = State.init) Step s) :
    (s.events ≠ [] → ∃ label s', Step s (.event label) s') ∧
      ((∀ r ∈ s.accepted, Completes s r (some r.hostname)) ↔
        ∀ r ∈ s.accepted, s.log r.id ≠ [] → string r.memory = some r.hostname) := by
  obtain ⟨batch, hinv⟩ := Reachable.inv h
  refine ⟨hinv.exists_event, fun hall r hr hlog => ?_, fun hall r hr => ?_⟩
  · obtain ⟨k, -, hprogress⟩ := (hall r hr).progress
    obtain ⟨k', -, hprogress'⟩ := (hinv.completes hr).progress
    exact hprogress'.hostname_eq hprogress hlog
  · have hcompletes := hinv.completes hr
    by_cases hlog : s.log r.id = []
    · obtain ⟨k, hk, hprogress⟩ := hcompletes.progress
      exact ⟨⟨k, hk, hprogress.of_quiet hlog _⟩, fun hout => (hcompletes.unreported hout).of_quiet hlog _,
        fun hin hidle => (hcompletes.handled hin hidle).of_quiet hlog _⟩
    · exact hall r hr hlog ▸ hcompletes

/-- One request, whose record happens to hold its hostname. -/
theorem completes_iff_run : ∃ s : State Unit, s.accepted.map Request.id = [0] ∧ s.events = [] ∧
    (s.log 0).length = 4 ∧ (s.events ≠ [] → ∃ label s', Step s (.event label) s') ∧
      ((∀ r ∈ s.accepted, Completes s r (some r.hostname)) ↔
        ∀ r ∈ s.accepted, s.log r.id ≠ [] → string r.memory = some r.hostname) := by
  have hrun : (replay State.next State.init [.call [97] [47] (), .request 0 (.socket 5), .request 0 .connect,
      .request 0 (.malloc 8 (97 :: List.replicate 1023 0)), .request 0 .add, .wait [5], .event (.recv [72, 73]),
      .event .callback, .event .del, .event .close, .event .free]).map
      (fun s : State Unit => (s.accepted.map Request.id, s.events, (s.log 0).length)) = some ([0], [], 4) := by
    decide +kernel
  obtain ⟨s, hrun, hs⟩ := Option.map_eq_some_iff.mp hrun
  simp only [Prod.mk.injEq] at hs
  obtain ⟨haccepted, hevents, hlog⟩ := hs
  exact ⟨s, haccepted, hevents, hlog,
    completes_iff (Transition.Reachable.replay (fun _ _ _ hnext => hnext) (.init rfl) hrun)⟩

/-- A record in cleared memory: the callback gets the empty string. -/
theorem callback_without_hostname : ∃ s : State Unit, Transition.Reachable (· = State.init) Step s ∧
    ∃ r ∈ s.accepted, r.hostname = [97] ∧ ¬ Completes s r (some r.hostname) := by
  have hrun : (replay State.next State.init [.call [97] [47] (), .request 0 (.socket 5), .request 0 .connect,
      .request 0 (.malloc 8 (List.replicate 1024 0)), .request 0 .add, .wait [5], .event (.recv [72, 73]),
      .event .callback]).map (fun s : State Unit => (s.accepted.map Request.id, s.accepted.map Request.hostname,
        s.accepted.map fun r => string r.memory, (s.log 0).length)) = some ([0], [[97]], [some []], 1) := by
    decide +kernel
  obtain ⟨s, hrun, hs⟩ := Option.map_eq_some_iff.mp hrun
  simp only [Prod.mk.injEq] at hs
  obtain ⟨hids, hhostnames, hmemories, hlog⟩ := hs
  have hreach : Transition.Reachable (· = State.init) Step s :=
    .replay (fun _ _ _ hnext => hnext) (.init rfl) hrun
  obtain ⟨batch, hinv⟩ := Reachable.inv hreach
  obtain ⟨r, haccepted⟩ := List.length_eq_one_iff.mp (by simpa using congrArg List.length hids)
  rw [haccepted] at hids hhostnames hmemories
  have hid : r.id = 0 := (List.cons.inj hids).1
  have hhostname : r.hostname = [97] := (List.cons.inj hhostnames).1
  have hmemory : string r.memory = some [] := (List.cons.inj hmemories).1
  have hr : r ∈ s.accepted := haccepted ▸ List.mem_singleton_self r
  refine ⟨s, hreach, r, hr, hhostname, fun hcompletes => ?_⟩
  obtain ⟨k, -, hprogress⟩ := hcompletes.progress
  obtain ⟨k', -, hprogress'⟩ := (hinv.completes hr).progress
  have hcalled : s.log r.id ≠ [] := fun hnil => by
    rw [← hid, hnil] at hlog
    exact Nat.zero_ne_one hlog
  have hsame := hprogress.hostname_eq hprogress' hcalled
  rw [hhostname, hmemory] at hsame
  exact List.cons_ne_nil _ _ (Option.some.inj hsame)

end CppProject.HttpClient
