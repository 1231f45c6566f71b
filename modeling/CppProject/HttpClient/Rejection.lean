import CppProject.HttpClient.Completion

/-!
# What a rejected call leaves behind

`async_http_client_request` returns `-1` without closing its socket and without freeing its record. So a call
that is rejected leaves nothing behind exactly if it comes to no socket: the name cannot be resolved, or
`socket` fails itself and `connect` then fails for the descriptor `-1`.
-/

namespace CppProject.HttpClient

open CString Transition

variable {C : Type*} {s s' t : State C} {id : RequestId}

/-- No descriptor, no registered descriptor and no record belongs to a call. -/
structure NothingLeft (s : State C) (id : RequestId) : Prop where
  fds : ∀ fd, s.fds fd ≠ some id
  epoll : ∀ fd p, s.epoll fd = some p → s.fds fd ≠ some id
  heap : ∀ p arg, s.heap p = some arg → arg.owner ≠ id

/-- The descriptors, the records and the epoll set are the same, and so are the calls and requests and what has
happened to them. -/
structure SameAsBefore (s s' : State C) : Prop where
  fds : s'.fds = s.fds
  epoll : s'.epoll = s.epoll
  heap : s'.heap = s.heap
  calls : s'.calls = s.calls
  accepted : s'.accepted = s.accepted
  reported : s'.reported = s.reported
  log : s'.log = s.log
  events : s'.events = s.events
  phase : s'.phase = s.phase

/-- A call made in `s` that is rejected has left nothing behind in `s'`, and if nothing else happened in between,
everything is as before. -/
structure Restores (s s' : State C) (labels : List (Label C)) : Prop where
  nothing : NothingLeft s' s.fresh
  same : (∀ label ∈ labels, ∃ step, label = .request s.fresh step) → SameAsBefore s s'

/-! ## The steps of calls -/

/-- What a step of a call may change. -/
structure CallStep (s s' : State C) (id : RequestId) : Prop where
  fresh : s'.fresh = s.fresh
  others : ∀ id' ≠ id, s'.calls id' = s.calls id'
  stage : ∀ c, s'.calls id = some c → c.stage ≠ .entered
  fds : ∀ fd id', s'.fds fd = some id' → s.fds fd = some id' ∨ id' = id
  heap : ∀ p arg, s'.heap p = some arg → s.heap p = some arg ∨ arg.owner = id

/-- A return from a call touches nothing but the epoll set and the list of the accepted requests. -/
theorem CallStep.endCall (id : RequestId) (haccepted : List (Request C)) (hepoll : Fd → Option Ptr) :
    CallStep s ({ s with epoll := hepoll, accepted := haccepted }.endCall id) id where
  fresh := rfl
  others _ hne := Function.update_of_ne hne _ _
  stage c hc := by
    change Function.update s.calls id none id = some c at hc
    rw [Function.update_self] at hc
    contradiction
  fds _ _ hfd := Or.inl hfd
  heap _ _ harg := Or.inl harg

/-- A call that goes on touches at most what is its own. -/
theorem CallStep.setStage {c : Call C} {stage : Stage} (hstage : stage ≠ .entered) {fds : Fd → Option RequestId}
    {heap : Ptr → Option (EpArg C)} (hfds : ∀ fd id', fds fd = some id' → s.fds fd = some id' ∨ id' = id)
    (hheap : ∀ p arg, heap p = some arg → s.heap p = some arg ∨ arg.owner = id) :
    CallStep s ({ s with fds := fds, heap := heap }.setStage id c stage) id where
  fresh := rfl
  others _ hne := Function.update_of_ne hne _ _
  stage c' hc' := by
    change Function.update s.calls id (some { c with stage := stage }) id = some c' at hc'
    rw [Function.update_self] at hc'
    exact Option.some.inj hc' ▸ hstage
  fds := hfds
  heap := hheap

/-- An entry that is new or was there. -/
theorem update_eq_some {α β : Type*} [DecidableEq α] {f : α → Option β} {a b : α} {new y : β}
    (h : Function.update f a (some new) b = some y) : f b = some y ∨ y = new := by
  by_cases hb : b = a
  · rw [hb, Function.update_self] at h
    exact Or.inr (Option.some.inj h).symm
  · rw [Function.update_of_ne hb] at h
    exact Or.inl h

/-- A step of a call leaves the other calls and what they own. -/
theorem callStep_of_requestStep {c : Call C} {label : RequestLabel} (hstep : s.requestStep id c label = some s') :
    CallStep s s' id := by
  cases label with
  | reject =>
    obtain rfl := Option.some.inj hstep
    exact .endCall id s.accepted s.epoll
  | socket sockfd =>
    rw [State.requestStep] at hstep
    split at hstep
    · obtain ⟨-, hstep⟩ := Option.ite_none_right_eq_some.mp hstep
      obtain rfl := Option.some.inj hstep
      refine .setStage (by simp) (fun fd id' hfd => ?_) fun _ _ harg => Or.inl harg
      exact update_eq_some hfd
    · contradiction
  | connect =>
    rw [State.requestStep] at hstep
    split at hstep
    · obtain ⟨-, -, rfl⟩ := Option.map_eq_some_iff.mp hstep
      exact .setStage (by simp) (fun _ _ hfd => Or.inl hfd) fun _ _ harg => Or.inl harg
    · contradiction
  | malloc eparg memory =>
    rw [State.requestStep] at hstep
    split at hstep
    · obtain ⟨-, hstep⟩ := Option.ite_none_right_eq_some.mp hstep
      obtain rfl := Option.some.inj hstep
      refine .setStage (by simp) (fun _ _ hfd => ?_) fun p arg harg => ?_
      · exact Or.inl hfd
      · rcases update_eq_some harg with hold | rfl
        · exact Or.inl hold
        · exact Or.inr rfl
    · contradiction
  | add =>
    rw [State.requestStep] at hstep
    split at hstep
    · obtain ⟨arg, -, hstep⟩ := Option.bind_eq_some_iff.mp hstep
      obtain ⟨-, hstep⟩ := Option.ite_none_right_eq_some.mp hstep
      obtain rfl := Option.some.inj hstep
      exact .endCall id _ _
    · contradiction

/-- From its first stage a call can only come to a socket or be rejected. -/
theorem requestStep_entered {c : Call C} (hstage : c.stage = .entered) {label : RequestLabel}
    (hlabel : ∀ fd, label ≠ .socket fd) (hstep : s.requestStep id c label = some s') : s' = s.endCall id := by
  cases label with
  | reject => exact (Option.some.inj hstep).symm
  | socket sockfd => exact absurd rfl (hlabel sockfd)
  | connect =>
    rw [State.requestStep, hstage] at hstep
    contradiction
  | malloc eparg memory =>
    rw [State.requestStep, hstage] at hstep
    contradiction
  | add =>
    rw [State.requestStep, hstage] at hstep
    contradiction

/-! ## The steps of the callback thread -/

/-- The steps of the callback thread leave the calls alone, and open and allocate nothing. -/
structure Shrinks (s s' : State C) : Prop where
  fresh : s'.fresh = s.fresh
  calls : s'.calls = s.calls
  fds : ∀ fd id, s'.fds fd = some id → s.fds fd = some id
  heap : ∀ p arg, s'.heap p = some arg → s.heap p = some arg

/-- A step that leaves calls, descriptors and heap. -/
theorem Shrinks.of_same (hfresh : s'.fresh = s.fresh) (hcalls : s'.calls = s.calls) (hfds : s'.fds = s.fds)
    (hheap : s'.heap = s.heap) : Shrinks s s' :=
  ⟨hfresh, hcalls, fun _ _ h => hfds ▸ h, fun _ _ h => hheap ▸ h⟩

/-- Notes leave calls, descriptors and heap. -/
theorem Shrinks.note (h : Shrinks s s') (owner : Option RequestId) (event : Event C) :
    Shrinks s (s'.note owner event) := by
  cases owner with
  | none => exact h
  | some id => exact ⟨h.fresh, h.calls, h.fds, h.heap⟩

/-- The callback thread opens and allocates nothing. -/
theorem shrinks_of_eventStep {data : Ptr} {rest : List Ptr} {label : EventLabel}
    (hstep : s.eventStep data rest label = some s') : Shrinks s s' := by
  cases label with
  | recv bytes =>
    rw [State.eventStep] at hstep
    split at hstep
    · obtain ⟨arg, -, hstep⟩ := Option.bind_eq_some_iff.mp hstep
      obtain ⟨buffer, -, rfl⟩ := Option.map_eq_some_iff.mp hstep
      exact .of_same rfl rfl rfl rfl
    · contradiction
  | callback =>
    rw [State.eventStep] at hstep
    split at hstep
    · obtain ⟨arg, -, rfl⟩ := Option.map_eq_some_iff.mp hstep
      refine Shrinks.note ?_ _ _
      exact .of_same rfl rfl rfl rfl
    · contradiction
  | del =>
    rw [State.eventStep] at hstep
    split at hstep
    · obtain rfl := Option.some.inj hstep
      refine Shrinks.note ?_ _ _
      exact .of_same rfl rfl rfl rfl
    · contradiction
  | close =>
    rw [State.eventStep] at hstep
    split at hstep
    · obtain rfl := Option.some.inj hstep
      refine Shrinks.note ?_ _ _
      refine ⟨rfl, rfl, fun fd id hfd => ?_, fun _ _ harg => harg⟩
      exact update_none_eq_some hfd
    · contradiction
  | free =>
    rw [State.eventStep] at hstep
    split at hstep
    · obtain ⟨arg, -, rfl⟩ := Option.map_eq_some_iff.mp hstep
      refine Shrinks.note ?_ _ _
      refine ⟨rfl, rfl, fun _ _ hfd => hfd, fun p arg harg => ?_⟩
      exact update_none_eq_some harg
    · contradiction

/-! ## Runs of a call -/

/-- A call that owns no descriptor and no record has left nothing. -/
theorem NothingLeft.of_fds (hfds : ∀ fd, s.fds fd ≠ some id) (hheap : ∀ p arg, s.heap p = some arg → arg.owner ≠ id) :
    NothingLeft s id :=
  ⟨hfds, fun fd _ _ => hfds fd, hheap⟩

/-- The step of another call leaves nothing for this one. -/
theorem NothingLeft.callStep {id' : RequestId} (h : NothingLeft s id) (hstep : CallStep s s' id') (hne : id ≠ id') :
    NothingLeft s' id := by
  refine .of_fds (fun fd hfd => ?_) (fun p arg harg howner => ?_)
  · exact (hstep.fds fd id hfd).elim (h.fds fd) hne
  · exact (hstep.heap p arg harg).elim (fun hold => h.heap p arg hold howner) fun heq => hne (howner.symm.trans heq)

/-- Closing and freeing leave nothing. -/
theorem NothingLeft.shrinks (h : NothingLeft s id) (hstep : Shrinks s s') : NothingLeft s' id :=
  .of_fds (fun fd hfd => h.fds fd (hstep.fds fd id hfd)) fun p arg harg => h.heap p arg (hstep.heap p arg harg)

/-- A call has been made, and if it is in progress, it has not come to a socket. -/
structure BeforeSocket (s : State C) (id : RequestId) : Prop where
  old : id < s.fresh
  stage : ∀ c, s.calls id = some c → c.stage = .entered
  left : NothingLeft s id

/-- A call has been made, and if it is in progress, it has come to its socket. -/
structure PastSocket (s : State C) (id : RequestId) : Prop where
  old : id < s.fresh
  stage : ∀ c, s.calls id = some c → c.stage ≠ .entered

/-- A call that has no socket has none after a step that gives it none. -/
theorem BeforeSocket.step (h : BeforeSocket s id) {label : Label C}
    (hlabel : ∀ fd, label ≠ .request id (.socket fd)) (hstep : Step s label s') : BeforeSocket s' id := by
  cases label with
  | call hostname source cb =>
    obtain rfl := Option.some.inj hstep
    refine ⟨h.old.trans (Nat.lt_succ_self _), fun c hc => ?_, .of_fds h.left.fds h.left.heap⟩
    change Function.update s.calls s.fresh _ id = some c at hc
    rw [Function.update_of_ne h.old.ne] at hc
    exact h.stage c hc
  | request id' label =>
    obtain ⟨c, hc, hstep⟩ := Option.bind_eq_some_iff.mp hstep
    by_cases hid : id = id'
    · subst hid
      obtain rfl := requestStep_entered (h.stage c hc) (fun fd heq => hlabel fd (heq ▸ rfl)) hstep
      exact ⟨h.old, fun c' hc' => absurd rfl (calls_endCall hc').1, .of_fds h.left.fds h.left.heap⟩
    · have hcall := callStep_of_requestStep hstep
      refine ⟨hcall.fresh ▸ h.old, fun c' hc' => ?_, h.left.callStep hcall hid⟩
      exact h.stage c' ((hcall.others id hid).symm.trans hc')
  | wait ready =>
    obtain ⟨-, hstep⟩ := Option.ite_none_right_eq_some.mp hstep
    obtain rfl := Option.some.inj hstep
    exact ⟨h.old, h.stage, .of_fds h.left.fds h.left.heap⟩
  | event label =>
    rw [Step, State.next] at hstep
    split at hstep
    · contradiction
    · have hshrinks := shrinks_of_eventStep hstep
      exact ⟨hshrinks.fresh ▸ h.old, fun c hc => h.stage c (hshrinks.calls ▸ hc), h.left.shrinks hshrinks⟩

/-- A step of the call itself takes it past its first stage. -/
theorem pastSocket_of_step (hold : id < s.fresh) {label : RequestLabel} (hstep : Step s (.request id label) s') :
    PastSocket s' id := by
  obtain ⟨c, -, hstep⟩ := Option.bind_eq_some_iff.mp hstep
  have hcall := callStep_of_requestStep hstep
  exact ⟨hcall.fresh ▸ hold, hcall.stage⟩

/-- A call that has come to its socket stays past that point. -/
theorem PastSocket.step (h : PastSocket s id) {label : Label C} (hstep : Step s label s') : PastSocket s' id := by
  cases label with
  | call hostname source cb =>
    obtain rfl := Option.some.inj hstep
    refine ⟨h.old.trans (Nat.lt_succ_self _), fun c hc => ?_⟩
    change Function.update s.calls s.fresh _ id = some c at hc
    rw [Function.update_of_ne h.old.ne] at hc
    exact h.stage c hc
  | request id' label =>
    by_cases hid : id = id'
    · subst hid
      exact pastSocket_of_step h.old hstep
    · obtain ⟨c, -, hstep⟩ := Option.bind_eq_some_iff.mp hstep
      have hcall := callStep_of_requestStep hstep
      exact ⟨hcall.fresh ▸ h.old, fun c' hc' => h.stage c' ((hcall.others id hid).symm.trans hc')⟩
  | wait ready =>
    obtain ⟨-, hstep⟩ := Option.ite_none_right_eq_some.mp hstep
    obtain rfl := Option.some.inj hstep
    exact ⟨h.old, h.stage⟩
  | event label =>
    rw [Step, State.next] at hstep
    split at hstep
    · contradiction
    · have hshrinks := shrinks_of_eventStep hstep
      exact ⟨hshrinks.fresh ▸ h.old, fun c hc => h.stage c (hshrinks.calls ▸ hc)⟩

/-- A run takes a call past its socket exactly if it has the step that opens it. -/
theorem BeforeSocket.run (h : BeforeSocket s id) {labels : List (Label C)} (hrun : Transition.Run Step s labels t) :
    ((∀ fd, .request id (.socket fd) ∉ labels) ∧ BeforeSocket t id) ∨
      ((∃ fd, .request id (.socket fd) ∈ labels) ∧ PastSocket t id) := by
  have hdichotomy := Transition.Run.dichotomy (G := fun label => ∀ fd, label ≠ .request id (.socket fd))
    (P := (BeforeSocket · id)) (Q := (PastSocket · id)) (fun _ _ _ h hlabel hstep => h.step hlabel hstep)
    (fun s label s' h hlabel hstep => by
      obtain ⟨fd, rfl⟩ : ∃ fd, label = .request id (.socket fd) := by simpa using hlabel
      exact pastSocket_of_step h.old hstep)
    (fun _ _ _ h hstep => h.step hstep) h hrun
  refine hdichotomy.imp (And.imp_left fun hall fd hmem => hall _ hmem fd rfl) (And.imp_left ?_)
  rintro ⟨label, hmem, hlabel⟩
  obtain ⟨fd, rfl⟩ : ∃ fd, label = .request id (.socket fd) := by simpa using hlabel
  exact ⟨fd, hmem⟩

/-- What belongs to a call belongs to one that has been made. -/
theorem Reachable.nothingLeft (h : Transition.Reachable (· = State.init) Step s) (hid : s.fresh ≤ id) :
    NothingLeft s id := by
  refine Transition.Reachable.invariant_of (Q := fun s => ∃ batch, Inv s batch)
    (P := fun s => ∀ id, s.fresh ≤ id → NothingLeft s id) (fun _ hs => Reachable.inv hs) ?_ ?_ h id hid
  · rintro s rfl id -
    exact .of_fds (fun _ => nofun) fun _ _ => nofun
  · intro s label s' ⟨batch, hinv⟩ h hstep id hid
    cases label with
    | call hostname source cb =>
      obtain rfl := Option.some.inj hstep
      have hleft := h id (Nat.le_of_succ_le hid)
      exact .of_fds hleft.fds hleft.heap
    | request id' label =>
      obtain ⟨c, hc, hstep⟩ := Option.bind_eq_some_iff.mp hstep
      have hcall := callStep_of_requestStep hstep
      rw [hcall.fresh] at hid
      exact (h id hid).callStep hcall ((hinv.calls id' c hc).old.trans_le hid).ne'
    | wait ready =>
      obtain ⟨-, hstep⟩ := Option.ite_none_right_eq_some.mp hstep
      obtain rfl := Option.some.inj hstep
      exact .of_fds (h id hid).fds (h id hid).heap
    | event label =>
      rw [Step, State.next] at hstep
      split at hstep
      · contradiction
      · have hshrinks := shrinks_of_eventStep hstep
        exact (h id (hshrinks.fresh ▸ hid)).shrinks hshrinks

/-- A call in progress past its first stage has a descriptor. -/
theorem CallOk.exists_fd {c : Call C} (h : CallOk s id c) (hstage : c.stage ≠ .entered) : ∃ fd, s.fds fd = some id := by
  obtain ⟨fd, hfd⟩ : ∃ fd, c.stage.sockfd = some fd := by
    cases hc : c.stage with
    | entered => exact absurd hc hstage
    | opened sockfd => exact ⟨sockfd, rfl⟩
    | connected sockfd => exact ⟨sockfd, rfl⟩
    | allocated sockfd eparg => exact ⟨sockfd, rfl⟩
  exact ⟨fd, h.opened fd hfd⟩

/-- The state in which a call has just been made. -/
def State.enter (s : State C) (hostname source : List UInt8) (cb : C) : State C :=
  { s with
    calls := Function.update s.calls s.fresh (some ⟨hostname, source, cb, .entered⟩)
    fresh := s.fresh + 1 }

/-- A call begins at its first stage. -/
theorem calls_enter (hostname source : List UInt8) (cb : C) :
    (s.enter hostname source cb).calls s.fresh = some ⟨hostname, source, cb, .entered⟩ := Function.update_self ..

/-- Steps of the call alone that do not come to a socket, up to its rejection: there are none. -/
theorem labels_eq_nil (h : BeforeSocket s id) {labels : List (Label C)} (hrun : Transition.Run Step s labels t)
    (hreject : Step t (.request id .reject) s') (hown : ∀ label ∈ labels, ∃ step, label = .request id step)
    (hsocket : ∀ fd, .request id (.socket fd) ∉ labels) : labels = [] := by
  cases hrun with
  | nil => rfl
  | @cons _ u _ label rest hfirst hrest =>
    obtain ⟨⟨step, rfl⟩, hrestown⟩ := List.forall_mem_cons.mp hown
    obtain ⟨c, hc, hfirst⟩ := Option.bind_eq_some_iff.mp hfirst
    have hnot : ∀ fd, step ≠ .socket fd := fun fd heq => hsocket fd (heq ▸ List.mem_cons_self)
    obtain rfl := requestStep_entered (h.stage c hc) hnot hfirst
    -- the call has returned, so it takes no further step
    have hended {label : RequestLabel} {v : State C} : ¬Step (s.endCall id) (.request id label) v := by
      intro hstep
      obtain ⟨c', hc', -⟩ := Option.bind_eq_some_iff.mp hstep
      exact (calls_endCall hc').1 rfl
    cases hrest with
    | nil => exact absurd hreject hended
    | cons hsecond _ =>
      obtain ⟨⟨step', rfl⟩, -⟩ := List.forall_mem_cons.mp hrestown
      exact absurd hsecond hended

/-- A call that has just been made has not come to a socket. -/
theorem beforeSocket_enter (hleft : NothingLeft s s.fresh) (hostname source : List UInt8) (cb : C) :
    BeforeSocket (s.enter hostname source cb) s.fresh := by
  refine ⟨Nat.lt_succ_self _, fun c hc => ?_, .of_fds hleft.fds hleft.heap⟩
  rw [calls_enter] at hc
  exact Option.some.inj hc ▸ rfl

/-- A call that is rejected at once. -/
theorem sameAsBefore_endCall (hcalls : s.calls s.fresh = none) (hostname source : List UInt8) (cb : C) :
    SameAsBefore s ((s.enter hostname source cb).endCall s.fresh) := by
  refine ⟨rfl, rfl, rfl, ?_, rfl, rfl, rfl, rfl, rfl⟩
  change Function.update (Function.update s.calls s.fresh _) s.fresh none = s.calls
  rw [Function.update_idem, ← hcalls, Function.update_eq_self]

/-- In every run, a call that is rejected leaves nothing behind exactly if it has opened no socket. -/
theorem restores_iff {hostname source : List UInt8} {cb : C} {labels : List (Label C)}
    (h : Transition.Reachable (· = State.init) Step s)
    (hrun : Transition.Run Step s (.call hostname source cb :: labels) t)
    (hreject : Step t (.request s.fresh .reject) s') :
    Restores s s' labels ↔ ∀ fd, .request s.fresh (.socket fd) ∉ labels := by
  obtain ⟨batch, hinv⟩ := Reachable.inv h
  have hreach : Transition.Reachable (· = State.init) Step t :=
    hrun.preserves (P := Transition.Reachable (· = State.init) Step) (fun _ _ _ hs hstep => hs.step hstep) h
  obtain ⟨batch', hinv'⟩ := Reachable.inv hreach
  cases hrun with
  | cons hcall hrest =>
    obtain rfl : s.enter hostname source cb = _ := Option.some.inj hcall
    have hbefore := beforeSocket_enter (Reachable.nothingLeft h le_rfl) hostname source cb
    obtain ⟨c, hc, hended⟩ := Option.bind_eq_some_iff.mp hreject
    obtain rfl := Option.some.inj hended
    rcases hbefore.run hrest with ⟨hsocket, hend⟩ | ⟨⟨fd, hmem⟩, hend⟩
    · refine iff_of_true ⟨.of_fds hend.left.fds hend.left.heap, fun hown => ?_⟩ hsocket
      obtain rfl := labels_eq_nil hbefore hrest hreject hown hsocket
      cases hrest
      have hnone : s.calls s.fresh = none :=
        Option.eq_none_iff_forall_ne_some.mpr fun c hc => absurd (hinv.calls s.fresh c hc).old (Nat.lt_irrefl _)
      exact sameAsBefore_endCall hnone hostname source cb
    · refine iff_of_false (fun hrestores => ?_) fun hsocket => hsocket fd hmem
      obtain ⟨fd', hfd'⟩ := (hinv'.calls s.fresh c hc).exists_fd (hend.stage c hc)
      exact hrestores.nothing.fds fd' hfd'

/-- With one request in flight, a second call whose name cannot be resolved. -/
theorem restores_unresolved : ∃ s t s' : State Unit, s.accepted.map Request.id = [0] ∧
    Transition.Run Step s [.call [98] [47] ()] t ∧ Step t (.request s.fresh .reject) s' ∧ Restores s s' [] := by
  have hrun : (replay State.next State.init [.call [97] [47] (), .request 0 (.socket 5), .request 0 .connect,
      .request 0 (.malloc 8 (List.replicate 1024 0)), .request 0 .add]).map
      (fun s : State Unit => s.accepted.map Request.id) = some [0] := by decide +kernel
  obtain ⟨s, hrun, haccepted⟩ := Option.map_eq_some_iff.mp hrun
  have hreach : Transition.Reachable (· = State.init) Step s :=
    .replay (fun _ _ _ hnext => hnext) (.init rfl) hrun
  have hcall : Transition.Run Step s [.call [98] [47] ()] (s.enter [98] [47] ()) := .cons rfl .nil
  have hreject : Step (s.enter [98] [47] ()) (.request s.fresh .reject) ((s.enter [98] [47] ()).endCall s.fresh) := by
    rw [Step, State.next, calls_enter, Option.bind_some]
    rfl
  exact ⟨s, _, _, haccepted, hcall, hreject, (restores_iff hreach hcall hreject).mpr fun _ => List.not_mem_nil⟩

/-- The connection of the first call is refused, and its descriptor stays open. -/
theorem not_restores_refused : ∃ t s' : State Unit,
    Transition.Run Step State.init (.call [97] [47] () :: [.request 0 (.socket 5)]) t ∧
      Step t (.request 0 .reject) s' ∧ s'.fds 5 = some 0 ∧ ¬Restores State.init s' [.request 0 (.socket 5)] := by
  refine ⟨_, _, .cons rfl (.cons rfl .nil), rfl, rfl, ?_⟩
  intro hrestores
  exact hrestores.nothing.fds 5 rfl

end CppProject.HttpClient
