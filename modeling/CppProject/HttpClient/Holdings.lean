import CppProject.HttpClient.Completion

/-!
# What each request holds

Every descriptor and every record belongs to one request: to a call in progress, to a request accepted and not yet
completed, or to a call that was rejected after it had opened its socket. Those of the last kind are never closed or
freed, whatever the other calls and the callback thread do afterwards.
-/

namespace CppProject.HttpClient

open CString Transition

variable {C : Type*}

/-! ## Rejections -/

/-- The rejection that a step is: the call, and the stage it had come to. -/
def Label.rejection (s : State C) : Label C → List (RequestId × Stage)
  | .request id .reject => (s.calls id).toList.map fun c => (id, c.stage)
  | _ => []

/-- The rejections in a run. -/
def rejections (s : State C) : List (Label C) → List (RequestId × Stage)
  | [] => []
  | label :: rest => label.rejection s ++ (s.next label).elim [] fun s' => rejections s' rest

/-! ## Holdings -/

/-- How many of its four things the callback thread has done for a request. -/
def State.done (s : State C) (id : RequestId) : ℕ := (s.log id).length

/-- The stage that a request is at or has ended at. -/
inductive Held (s : State C) (left : List (RequestId × Stage)) (id : RequestId) : Stage → Prop
  | calling {c : Call C} : s.calls id = some c → Held s left id c.stage
  | rejected {stage : Stage} : (id, stage) ∈ left → Held s left id stage
  | accepted {r : Request C} : r ∈ s.accepted → r.id = id → Held s left id (.allocated r.sockfd r.eparg)

/-- The descriptor that belongs to a request is the one of its stage, until it is closed; and the record likewise. -/
structure Owns (s : State C) (id : RequestId) (stage : Stage) : Prop where
  fds : ∀ fd, s.fds fd = some id ↔ stage.sockfd = some fd ∧ s.done id < 3
  heap : ∀ p, (∃ arg, s.heap p = some arg ∧ arg.owner = id) ↔ stage.eparg = some p ∧ s.done id < 4

/-- Each request made is at one stage and holds what it has obtained there; the others hold nothing. -/
structure Holding (s : State C) (left : List (RequestId × Stage)) (id : RequestId) : Prop where
  made : id < s.fresh → ∃ stage, (∀ other, Held s left id other ↔ other = stage) ∧ Owns s id stage
  unmade : s.fresh ≤ id → (∀ stage, ¬ Held s left id stage) ∧ Owns s id .entered

/-- A rejected call has returned and is not accepted, and nothing has been done for it: neither its descriptor nor its
record is closed or freed. -/
structure Rejected (s : State C) (id : RequestId) : Prop where
  returned : s.calls id = none
  unaccepted : ∀ r ∈ s.accepted, r.id ≠ id
  untouched : s.done id = 0

/-- All descriptors, records and registrations, with the calls that were rejected. -/
structure Accounted (left : List (RequestId × Stage)) (s : State C) : Prop where
  holding : ∀ id, Holding s left id
  rejected : ∀ entry ∈ left, Rejected s entry.1
  registered : ∀ fd p, s.epoll fd = some p ↔ ∃ r ∈ s.accepted, r.sockfd = fd ∧ r.eparg = p ∧ s.done r.id < 2

variable {s s' t : State C} {left more : List (RequestId × Stage)} {id id' : RequestId} {stage : Stage}
  {batch rest : List (Request C)} {r : Request C}

/-! ## One request at a time -/

/-- What a step leaves of the other requests. -/
structure Concerns (s s' : State C) (id : RequestId) : Prop where
  fresh : ∀ id' ≠ id, id' < s'.fresh ↔ id' < s.fresh
  calls : ∀ id' ≠ id, s'.calls id' = s.calls id'
  accepted : ∀ r : Request C, r.id ≠ id → (r ∈ s'.accepted ↔ r ∈ s.accepted)
  log : ∀ id' ≠ id, s'.log id' = s.log id'
  fds : ∀ id' ≠ id, ∀ fd, s'.fds fd = some id' ↔ s.fds fd = some id'
  heap : ∀ id' ≠ id, ∀ p arg, arg.owner = id' → (s'.heap p = some arg ↔ s.heap p = some arg)

/-- A request stays at a stage while its call, its rejection or its acceptance stays. -/
theorem Held.mono {left' : List (RequestId × Stage)} (h : Held s left id stage) (hcalls : s'.calls id = s.calls id)
    (hleft : ∀ stage, (id, stage) ∈ left → (id, stage) ∈ left')
    (haccepted : ∀ r : Request C, r.id = id → r ∈ s.accepted → r ∈ s'.accepted) : Held s' left' id stage := by
  cases h with
  | calling hc => exact .calling (hcalls.trans hc)
  | rejected hmem => exact .rejected (hleft _ hmem)
  | accepted hr howner => exact .accepted (haccepted _ howner hr) howner

/-- The stages depend on the calls in progress and the accepted requests only. -/
theorem held_congr (hcalls : s'.calls = s.calls) (haccepted : s'.accepted = s.accepted) :
    Held s' left id stage ↔ Held s left id stage := by
  constructor
  · exact fun h => h.mono (congrFun hcalls.symm id) (fun _ hmem => hmem) fun r _ hr => haccepted ▸ hr
  · exact fun h => h.mono (congrFun hcalls id) (fun _ hmem => hmem) fun r _ hr => haccepted ▸ hr

/-- The other requests stay at their stages. -/
theorem Concerns.held (h : Concerns s s' id) (hid : id' ≠ id) (hmore : ∀ entry ∈ more, entry.1 = id) :
    Held s' (left ++ more) id' stage ↔ Held s left id' stage := by
  constructor
  · intro hheld
    refine hheld.mono (h.calls id' hid).symm (fun _ hmem => ?_) fun r howner hr => (h.accepted r (howner ▸ hid)).mp hr
    exact (List.mem_append.mp hmem).resolve_right fun hnew => hid (hmore _ hnew)
  · intro hheld
    exact hheld.mono (h.calls id' hid) (fun _ => List.mem_append_left _) fun r howner hr =>
      (h.accepted r (howner ▸ hid)).mpr hr

/-- The other requests hold what they held. -/
theorem Owns.frame (h : Owns s id' stage) (hc : Concerns s s' id) (hid : id' ≠ id) : Owns s' id' stage := by
  have hdone : s'.done id' = s.done id' := congrArg List.length (hc.log id' hid)
  refine ⟨fun fd => ?_, fun p => ?_⟩
  · rw [hc.fds id' hid, h.fds, hdone]
  · rw [hdone, ← h.heap]
    exact exists_congr fun arg => and_congr_left fun howner => hc.heap id' hid p arg howner

/-- The other requests stay accounted for. -/
theorem Holding.frame (h : Holding s left id') (hc : Concerns s s' id) (hid : id' ≠ id)
    (hmore : ∀ entry ∈ more, entry.1 = id) : Holding s' (left ++ more) id' := by
  refine ⟨fun hnew => ?_, fun hold => ?_⟩
  · obtain ⟨stage, hheld, howns⟩ := h.made ((hc.fresh id' hid).mp hnew)
    exact ⟨stage, fun other => (hc.held hid hmore).trans (hheld other), howns.frame hc hid⟩
  · obtain ⟨hnone, howns⟩ := h.unmade (not_lt.mp fun hlt => absurd ((hc.fresh id' hid).mpr hlt) (not_lt.mpr hold))
    exact ⟨fun stage hheld => hnone stage ((hc.held hid hmore).mp hheld), howns.frame hc hid⟩

/-- A step for another request leaves a rejected call as it is. -/
theorem Rejected.frame (h : Rejected s id') (hc : Concerns s s' id) (hid : id' ≠ id) : Rejected s' id' where
  returned := (hc.calls id' hid).trans h.returned
  unaccepted := fun r hr howner => h.unaccepted r ((hc.accepted r (howner ▸ hid)).mp hr) howner
  untouched := (congrArg List.length (hc.log id' hid)).trans h.untouched

/-- What a request holds is what the stage asks that it is at. -/
theorem Holding.owns (h : Holding s left id) (hid : id < s.fresh) (hheld : Held s left id stage) :
    (∀ other, Held s left id other ↔ other = stage) ∧ Owns s id stage := by
  obtain ⟨found, hfound, howns⟩ := h.made hid
  obtain rfl := (hfound stage).mp hheld
  exact ⟨hfound, howns⟩

/-- A request made, with its stage. -/
theorem Holding.of_made (hid : id < s.fresh) (hheld : ∀ other, Held s left id other ↔ other = stage)
    (howns : Owns s id stage) : Holding s left id :=
  ⟨fun _ => ⟨stage, hheld, howns⟩, fun hold => absurd hid (not_lt.mpr hold)⟩

/-- All requests after a step that concerns one of them. -/
theorem Accounted.step_of_concerns (h : Accounted left s) (hc : Concerns s s' id)
    (hmore : ∀ entry ∈ more, entry.1 = id) (hown : Holding s' (left ++ more) id)
    (hrejected : ∀ stage, (id, stage) ∈ left ++ more → Rejected s' id)
    (hregistered : ∀ fd p, s'.epoll fd = some p ↔
      ∃ r ∈ s'.accepted, r.sockfd = fd ∧ r.eparg = p ∧ s'.done r.id < 2) :
    Accounted (left ++ more) s' := by
  refine ⟨fun id' => ?_, fun entry hentry => ?_, hregistered⟩
  · by_cases hid : id' = id
    · exact hid ▸ hown
    · exact (h.holding id').frame hc hid hmore
  · obtain ⟨id', stage⟩ := entry
    by_cases hid : id' = id
    · subst hid
      exact hrejected stage hentry
    · have hold : (id', stage) ∈ left :=
        (List.mem_append.mp hentry).resolve_right fun hnew => hid (hmore _ hnew)
      exact (h.rejected _ hold).frame hc hid

/-- All requests after a step that concerns one of them and rejects none. -/
theorem Accounted.frame (h : Accounted left s) (hc : Concerns s s' id) (hown : Holding s' left id)
    (hrejected : ∀ stage, (id, stage) ∈ left → Rejected s' id)
    (hregistered : ∀ fd p, s'.epoll fd = some p ↔
      ∃ r ∈ s'.accepted, r.sockfd = fd ∧ r.eparg = p ∧ s'.done r.id < 2) : Accounted left s' := by
  have hnone : ∀ entry ∈ ([] : List (RequestId × Stage)), entry.1 = id := fun _ hentry =>
    absurd hentry List.not_mem_nil
  rw [← List.append_nil left] at hown hrejected ⊢
  exact h.step_of_concerns hc hnone hown hrejected hregistered

/-! ## The steps of a call -/

/-- The callback thread has done nothing for a call in progress. -/
theorem CallOk.done_eq {c : Call C} (h : CallOk s id c) : s.done id = 0 := congrArg List.length h.quiet.1

/-- A call in progress has not been rejected. -/
theorem Accounted.not_mem_left (h : Accounted left s) {c : Call C} (hc : s.calls id = some c) (stage : Stage) :
    (id, stage) ∉ left := fun hmem =>
  absurd (hc.symm.trans (h.rejected _ hmem).returned) (Option.some_ne_none c)

/-- A call in progress is at its own stage only. -/
theorem held_calling {c : Call C} (hc : s.calls id = some c) (hleft : ∀ stage, (id, stage) ∉ left)
    (haccepted : ∀ r ∈ s.accepted, r.id ≠ id) (other : Stage) : Held s left id other ↔ other = c.stage := by
  constructor
  · intro hheld
    cases hheld with
    | calling hc' => rw [Option.some.inj (hc.symm.trans hc')]
    | rejected hmem => exact absurd hmem (hleft _)
    | accepted hr howner => exact absurd howner (haccepted _ hr)
  · rintro rfl
    exact .calling hc

/-- A call that is rejected stays at the stage it had come to. -/
theorem held_rejected (hcalls : s.calls id = none) (hleft : ∀ stage, (id, stage) ∉ left)
    (haccepted : ∀ r ∈ s.accepted, r.id ≠ id) (other : Stage) :
    Held s (left ++ [(id, stage)]) id other ↔ other = stage := by
  constructor
  · intro hheld
    cases hheld with
    | calling hc => exact absurd (hc.symm.trans hcalls) (Option.some_ne_none _)
    | rejected hmem =>
      rcases List.mem_append.mp hmem with hold | hnew
      · exact absurd hold (hleft _)
      · exact (Prod.mk.inj (List.mem_singleton.mp hnew)).2
    | accepted hr howner => exact absurd howner (haccepted _ hr)
  · rintro rfl
    exact .rejected (List.mem_append_right _ (List.mem_singleton_self _))

/-- An accepted request has a descriptor and a record. -/
theorem held_accepted (hcalls : s.calls r.id = none) (hleft : ∀ stage, (r.id, stage) ∉ left) (hr : r ∈ s.accepted)
    (haccepted : ∀ r' ∈ s.accepted, r'.id = r.id → r' = r) (other : Stage) :
    Held s left r.id other ↔ other = .allocated r.sockfd r.eparg := by
  constructor
  · intro hheld
    cases hheld with
    | calling hc => exact absurd (hc.symm.trans hcalls) (Option.some_ne_none _)
    | rejected hmem => exact absurd hmem (hleft _)
    | accepted hr' howner => rw [haccepted _ hr' howner]
  · rintro rfl
    exact .accepted hr rfl

variable {c : Call C}

/-- What a call in progress holds. -/
theorem Accounted.owns_calling (h : Accounted left s) (hinv : Inv s batch) (hc : s.calls id = some c) :
    (∀ fd, s.fds fd = some id ↔ c.stage.sockfd = some fd) ∧
      ∀ p, (∃ arg, s.heap p = some arg ∧ arg.owner = id) ↔ c.stage.eparg = some p := by
  have hok := hinv.calls id c hc
  obtain ⟨-, howns⟩ := (h.holding id).owns hok.old (.calling hc)
  have hdone := hok.done_eq
  refine ⟨fun fd => ?_, fun p => ?_⟩
  · rw [howns.fds, hdone, and_iff_left (by decide)]
  · rw [howns.heap, hdone, and_iff_left (by decide)]

/-- A call comes to another stage, with a descriptor or a record of its own. -/
theorem Accounted.setStage (h : Accounted left s) (hinv : Inv s batch) (hc : s.calls id = some c) {stage : Stage}
    {fds : Fd → Option RequestId} {heap : Ptr → Option (EpArg C)}
    (hfds : ∀ id' ≠ id, ∀ fd, fds fd = some id' ↔ s.fds fd = some id')
    (hheap : ∀ id' ≠ id, ∀ p arg, arg.owner = id' → (heap p = some arg ↔ s.heap p = some arg))
    (hopened : ∀ fd, fds fd = some id ↔ stage.sockfd = some fd)
    (hfilled : ∀ p, (∃ arg, heap p = some arg ∧ arg.owner = id) ↔ stage.eparg = some p) :
    Accounted left ({ s with fds := fds, heap := heap }.setStage id c stage) := by
  have hok := hinv.calls id c hc
  have hcalls : ({ s with fds := fds, heap := heap }.setStage id c stage).calls id = some { c with stage := stage } :=
    Function.update_self _ _ _
  have hconcerns : Concerns s ({ s with fds := fds, heap := heap }.setStage id c stage) id :=
    ⟨fun _ _ => Iff.rfl, fun id' hid => Function.update_of_ne hid _ _, fun _ _ => Iff.rfl, fun _ _ => rfl, hfds,
      hheap⟩
  have hdone : ({ s with fds := fds, heap := heap }.setStage id c stage).done id = 0 := hok.done_eq
  refine h.frame hconcerns (.of_made hok.old (held_calling hcalls (h.not_mem_left hc) hok.pending) ⟨?_, ?_⟩)
    (fun stage hmem => absurd hmem (h.not_mem_left hc stage)) h.registered
  · exact fun fd => by rw [hdone, and_iff_left (by decide)]; exact hopened fd
  · exact fun p => by rw [hdone, and_iff_left (by decide)]; exact hfilled p

/-- A call is rejected, and what it holds stays. -/
theorem Accounted.reject (h : Accounted left s) (hinv : Inv s batch) (hc : s.calls id = some c) :
    Accounted (left ++ [(id, c.stage)]) (s.endCall id) := by
  have hok := hinv.calls id c hc
  have hcalls : (s.endCall id).calls id = none := Function.update_self _ _ _
  obtain ⟨-, howns⟩ := (h.holding id).owns hok.old (.calling hc)
  have hconcerns : Concerns s (s.endCall id) id :=
    ⟨fun _ _ => Iff.rfl, fun id' hid => Function.update_of_ne hid _ _, fun _ _ => Iff.rfl, fun _ _ => rfl,
      fun _ _ _ => Iff.rfl, fun _ _ _ _ _ => Iff.rfl⟩
  exact h.step_of_concerns hconcerns (fun entry hentry => by rw [List.mem_singleton.mp hentry])
    (.of_made hok.old (held_rejected hcalls (h.not_mem_left hc) hok.pending) ⟨howns.fds, howns.heap⟩)
    (fun _ _ => ⟨hcalls, hok.pending, hok.done_eq⟩) h.registered

/-- A call is accepted, and its socket is registered. -/
theorem Accounted.accept (h : Accounted left s) (hinv : Inv s batch) (hc : s.calls r.id = some c)
    (hstage : c.stage = .allocated r.sockfd r.eparg) (hfree : s.epoll r.sockfd = none) :
    Accounted left (s.accept r) := by
  have hok := hinv.calls r.id c hc
  have hcalls : (s.accept r).calls r.id = none := Function.update_self _ _ _
  have hne {r' : Request C} (hr' : r' ∈ s.accepted) : r'.id ≠ r.id := hok.pending r' hr'
  obtain ⟨-, howns⟩ := (h.holding r.id).owns hok.old (.calling hc)
  rw [hstage] at howns
  have hconcerns : Concerns s (s.accept r) r.id := by
    refine ⟨fun _ _ => Iff.rfl, fun id' hid => Function.update_of_ne hid _ _, fun r' hid => ?_, fun _ _ => rfl,
      fun _ _ _ => Iff.rfl, fun _ _ _ _ _ => Iff.rfl⟩
    exact ⟨fun hr' => (List.mem_cons.mp hr').resolve_left fun heq => hid (heq ▸ rfl), List.mem_cons_of_mem r⟩
  have hheld := held_accepted hcalls (h.not_mem_left hc) (List.mem_cons_self : r ∈ (s.accept r).accepted)
    fun r' hr' heq => (List.mem_cons.mp hr').resolve_right fun hold => hne hold heq
  refine h.frame hconcerns (.of_made hok.old hheld ⟨howns.fds, howns.heap⟩)
    (fun stage hmem => absurd hmem (h.not_mem_left hc stage)) fun fd p => ?_
  change Function.update s.epoll r.sockfd (some r.eparg) fd = some p ↔
    ∃ r' ∈ r :: s.accepted, r'.sockfd = fd ∧ r'.eparg = p ∧ s.done r'.id < 2
  have hdone : s.done r.id < 2 := hok.done_eq ▸ (by decide)
  simp only [List.mem_cons, exists_eq_or_imp]
  by_cases hfd : fd = r.sockfd
  · subst hfd
    rw [Function.update_self, Option.some.injEq]
    refine ⟨fun heq => Or.inl ⟨rfl, heq, hdone⟩, fun hor => hor.elim (fun hnew => hnew.2.1) fun hold => ?_⟩
    exact absurd (hfree.symm.trans ((h.registered r.sockfd p).mpr hold)) (Option.some_ne_none p).symm
  · rw [Function.update_of_ne hfd, h.registered, or_iff_right fun hnew => hfd hnew.1.symm]

/-- A step of a call. -/
theorem Accounted.requestStep (h : Accounted left s) (hinv : Inv s batch) (hc : s.calls id = some c)
    {label : RequestLabel} (hstep : s.requestStep id c label = some s') :
    Accounted (left ++ Label.rejection s (.request id label)) s' := by
  obtain ⟨hfds, hheap⟩ := h.owns_calling hinv hc
  cases label with
  | reject =>
    obtain rfl := Option.some.inj hstep
    have hrejection : Label.rejection s (.request id .reject) = [(id, c.stage)] := by
      rw [Label.rejection, hc, Option.toList_some, List.map_singleton]
    rw [hrejection]
    exact h.reject hinv hc
  | socket sockfd =>
    change Accounted (left ++ []) s'
    rw [List.append_nil]
    rw [State.requestStep] at hstep
    split at hstep
    · next hstage =>
      obtain ⟨hfree, hstep⟩ := Option.ite_none_right_eq_some.mp hstep
      obtain rfl := Option.some.inj hstep
      rw [hstage] at hfds hheap
      refine h.setStage hinv hc (fun id' hid fd => ?_) (fun _ _ _ _ _ => Iff.rfl) (fun fd => ?_) hheap
      · exact update_iff_of_ne hfree (by simp) (by simpa using hid.symm)
      · by_cases hfd : fd = sockfd
        · subst hfd
          simp [Stage.sockfd]
        · rw [Function.update_of_ne hfd, hfds]
          simp [Stage.sockfd, Ne.symm hfd]
    · contradiction
  | connect =>
    change Accounted (left ++ []) s'
    rw [List.append_nil]
    rw [State.requestStep] at hstep
    split at hstep
    · next sockfd hstage =>
      obtain ⟨-, -, rfl⟩ := Option.map_eq_some_iff.mp hstep
      rw [hstage] at hfds hheap
      exact h.setStage hinv hc (fun _ _ _ => Iff.rfl) (fun _ _ _ _ _ => Iff.rfl) hfds hheap
    · contradiction
  | malloc eparg memory =>
    change Accounted (left ++ []) s'
    rw [List.append_nil]
    rw [State.requestStep] at hstep
    split at hstep
    · next sockfd hstage =>
      obtain ⟨⟨hfree, -⟩, hstep⟩ := Option.ite_none_right_eq_some.mp hstep
      obtain rfl := Option.some.inj hstep
      rw [hstage] at hfds hheap
      refine h.setStage hinv hc (fun _ _ _ => Iff.rfl) (fun id' hid p arg howner => ?_) hfds fun p => ?_
      · refine update_iff_of_ne hfree (by simp) fun heq => hid ?_
        rw [← howner, ← Option.some.inj heq]
      · by_cases hp : p = eparg
        · subst hp
          simp [Stage.eparg]
        · rw [Function.update_of_ne hp, hheap]
          simp [Stage.eparg, Ne.symm hp]
    · contradiction
  | add =>
    change Accounted (left ++ []) s'
    rw [List.append_nil]
    rw [State.requestStep] at hstep
    split at hstep
    · next sockfd eparg hstage =>
      obtain ⟨arg, harg, hstep⟩ := Option.bind_eq_some_iff.mp hstep
      obtain ⟨hfree, hstep⟩ := Option.ite_none_right_eq_some.mp hstep
      obtain rfl := Option.some.inj hstep
      exact h.accept (r := ⟨id, c.hostname, c.cb, sockfd, eparg, arg.hostname⟩) hinv hc hstage hfree
    · contradiction

/-! ## The steps of the callback thread -/

/-- The number of things done is the number of events logged. -/
theorem Progress.done_eq {hostname : Option (List UInt8)} {k : ℕ} (h : Progress s r hostname k) (hk : k ≤ 4) :
    s.done r.id = k := by
  obtain ⟨result, hlog⟩ := h.events
  rw [State.done, hlog, List.length_take]
  exact min_eq_left hk

/-- What a step at the event of a request changes: it may do one thing more for the request, and closes its
descriptor and frees its record when their turn comes. -/
structure EventEffect (s s' : State C) (r : Request C) (k k' : ℕ) : Prop where
  calls : s'.calls = s.calls
  accepted : s'.accepted = s.accepted
  fresh : s'.fresh = s.fresh
  before : s.done r.id = k
  after : s'.done r.id = k'
  order : k' = k + 1 ∧ k < 4 ∨ k' = k ∧ k = 0
  log : ∀ id ≠ r.id, s'.log id = s.log id
  fds : s'.fds = if k' = 3 then Function.update s.fds r.sockfd none else s.fds
  heap : s'.heap = if k' = 4 then Function.update s.heap r.eparg none else s.heap
  epoll : ∀ fd, s'.epoll fd = if k' = 2 ∨ k' = 3 then Function.update s.epoll r.sockfd none fd else s.epoll fd

/-- Every event logged for a request counts. -/
theorem done_note (event : Event C) : (s.note (some id) event).done id = s.done id + 1 := by
  change (Function.update s.log id (s.log id ++ [event]) id).length = (s.log id).length + 1
  rw [Function.update_self, List.length_append, List.length_singleton]

/-- The logs of the other requests stay. -/
theorem log_note_of_ne (event : Event C) {id' : RequestId} (hid : id' ≠ id) :
    (s.note (some id) event).log id' = s.log id' := Function.update_of_ne hid _ _

/-- Every step of the callback thread at an event. -/
theorem Inv.eventEffect (h : Inv s (r :: rest)) {label : EventLabel}
    (hstep : s.eventStep r.eparg (rest.map Request.eparg) label = some s') :
    ∃ k k', EventEffect s s' r k k' := by
  obtain ⟨hcurrent, hfd⟩ := h.current r rfl
  have hdone := hcurrent.done_eq s.phase.done_lt.le
  cases label with
  | recv bytes =>
    rw [State.eventStep] at hstep
    split at hstep
    · next hphase =>
      rw [hphase] at hdone
      obtain ⟨arg, -, hstep⟩ := Option.bind_eq_some_iff.mp hstep
      obtain ⟨buffer, -, rfl⟩ := Option.map_eq_some_iff.mp hstep
      exact ⟨0, 0, rfl, rfl, rfl, hdone, hdone, Or.inr ⟨rfl, rfl⟩, fun _ _ => rfl, rfl, rfl, fun _ => rfl⟩
    · contradiction
  | callback =>
    rw [State.eventStep] at hstep
    split at hstep
    · next sockfd buffer hphase =>
      rw [hcurrent.record s.phase.done_lt, Option.map_some] at hstep
      rw [hphase] at hdone
      obtain rfl := Option.some.inj hstep
      exact ⟨0, 1, rfl, rfl, rfl, hdone, (done_note _).trans (congrArg (· + 1) hdone), Or.inl ⟨rfl, by decide⟩,
        fun _ hid => log_note_of_ne _ hid, rfl, rfl, fun _ => rfl⟩
    · contradiction
  | del =>
    rw [State.eventStep] at hstep
    split at hstep
    · next sockfd hphase =>
      rw [hphase] at hdone hfd hcurrent
      change Progress s r (string r.memory) 1 at hcurrent
      obtain rfl : sockfd = r.sockfd := hfd sockfd rfl
      rw [hcurrent.registered (by decide), Option.bind_some, hcurrent.opened.mpr (by decide)] at hstep
      obtain rfl := Option.some.inj hstep
      exact ⟨1, 2, rfl, rfl, rfl, hdone, (done_note _).trans (congrArg (· + 1) hdone), Or.inl ⟨rfl, by decide⟩,
        fun _ hid => log_note_of_ne _ hid, rfl, rfl, fun _ => rfl⟩
    · contradiction
  | close =>
    rw [State.eventStep] at hstep
    split at hstep
    · next sockfd hphase =>
      rw [hphase] at hdone hfd hcurrent
      change Progress s r (string r.memory) 2 at hcurrent
      obtain rfl : sockfd = r.sockfd := hfd sockfd rfl
      rw [hcurrent.opened.mpr (by decide)] at hstep
      obtain rfl := Option.some.inj hstep
      exact ⟨2, 3, rfl, rfl, rfl, hdone, (done_note _).trans (congrArg (· + 1) hdone), Or.inl ⟨rfl, by decide⟩,
        fun _ hid => log_note_of_ne _ hid, rfl, rfl, fun _ => rfl⟩
    · contradiction
  | free =>
    rw [State.eventStep] at hstep
    split at hstep
    · next hphase =>
      rw [hcurrent.record s.phase.done_lt, Option.map_some] at hstep
      rw [hphase] at hdone
      obtain rfl := Option.some.inj hstep
      exact ⟨3, 4, rfl, rfl, rfl, hdone, (done_note _).trans (congrArg (· + 1) hdone), Or.inl ⟨rfl, by decide⟩,
        fun _ hid => log_note_of_ne _ hid, rfl, rfl, fun _ => rfl⟩
    · contradiction

variable {k k' : ℕ}

/-- What an accepted request holds. -/
theorem Accounted.owns_accepted (h : Accounted left s) (hinv : Inv s batch) (hr : r ∈ s.accepted) :
    (∀ other, Held s left r.id other ↔ other = .allocated r.sockfd r.eparg) ∧
      Owns s r.id (.allocated r.sockfd r.eparg) :=
  (h.holding r.id).owns (hinv.old r hr) (.accepted hr rfl)

/-- A step at an event concerns the request of the event. -/
theorem EventEffect.concerns (h : EventEffect s s' r k k') (howns : Owns s r.id (.allocated r.sockfd r.eparg)) :
    Concerns s s' r.id := by
  refine ⟨fun _ _ => by rw [h.fresh], fun id' _ => congrFun h.calls id', fun r' _ => by rw [h.accepted], h.log,
    fun id' hid fd => ?_, fun id' hid p arg howner => ?_⟩
  · rw [h.fds]
    split
    · next hclosed =>
      have hopen : s.fds r.sockfd = some r.id :=
        (howns.fds r.sockfd).mpr ⟨rfl, by rw [h.before]; have := h.order; omega⟩
      exact update_iff_of_ne hopen (by simpa using hid.symm) (Option.some_ne_none id').symm
    · exact Iff.rfl
  · rw [h.heap]
    split
    · next hfreed =>
      obtain ⟨record, hrecord, hmine⟩ : ∃ arg, s.heap r.eparg = some arg ∧ arg.owner = r.id :=
        (howns.heap r.eparg).mpr ⟨rfl, by rw [h.before]; have := h.order; omega⟩
      refine update_iff_of_ne hrecord (fun heq => hid ?_) (Option.some_ne_none arg).symm
      rw [← howner, ← hmine, Option.some.inj heq]
    · exact Iff.rfl

/-- A descriptor goes when it is closed, and a record when it is freed. -/
theorem EventEffect.owns (h : EventEffect s s' r k k') (howns : Owns s r.id (.allocated r.sockfd r.eparg)) :
    Owns s' r.id (.allocated r.sockfd r.eparg) := by
  have horder := h.order
  refine ⟨fun fd => ?_, fun p => ?_⟩
  · rw [h.fds, h.after]
    split
    · next hclosed =>
      refine iff_of_false (fun hfd => ?_) fun hlt => absurd hlt.2 (by omega)
      have hsame := ((howns.fds fd).mp (update_none_eq_some hfd)).1
      exact ne_of_update_none_eq_some hfd (Option.some.inj hsame).symm
    · rw [howns.fds, h.before]
      exact and_congr_right fun _ => by omega
  · rw [h.heap, h.after]
    split
    · next hfreed =>
      refine iff_of_false (fun hrecord => ?_) fun hlt => absurd hlt.2 (by omega)
      obtain ⟨arg, harg, howner⟩ := hrecord
      have hsame := ((howns.heap p).mp ⟨arg, update_none_eq_some harg, howner⟩).1
      exact ne_of_update_none_eq_some harg (Option.some.inj hsame).symm
    · rw [howns.heap, h.before]
      exact and_congr_right fun _ => by omega

/-- A descriptor taken out of the epoll set was the request's own, and no other accepted request has it. -/
theorem Accounted.registered_event (h : Accounted left s) (hinv : Inv s (r :: rest)) (heffect : EventEffect s s' r k k')
    (fd : Fd) (p : Ptr) :
    s'.epoll fd = some p ↔ ∃ r' ∈ s'.accepted, r'.sockfd = fd ∧ r'.eparg = p ∧ s'.done r'.id < 2 := by
  have hr := hinv.head_accepted
  have horder := heffect.order
  have hother {r' : Request C} (hr' : r' ∈ s.accepted) (hne : r' ≠ r) : s'.done r'.id = s.done r'.id :=
    congrArg List.length (heffect.log r'.id (hinv.id_ne hr' hr hne))
  rw [heffect.epoll, heffect.accepted]
  split
  · next htaken =>
    by_cases hfd : fd = r.sockfd
    · subst hfd
      rw [Function.update_self]
      refine iff_of_false (Option.some_ne_none p).symm ?_
      rintro ⟨r', hr', hsockfd, -, hdone⟩
      have hne : r' ≠ r := fun heq => by
        rw [heq, heffect.after] at hdone
        omega
      -- both requests would have the descriptor
      have hmine := ((h.owns_accepted hinv hr).2.fds r.sockfd).mpr ⟨rfl, by rw [heffect.before]; omega⟩
      have htheirs := ((h.owns_accepted hinv hr').2.fds r.sockfd).mpr
        ⟨congrArg some hsockfd, by rw [hother hr' hne] at hdone; omega⟩
      exact hinv.id_ne hr' hr hne (Option.some.inj (htheirs.symm.trans hmine))
    · rw [Function.update_of_ne hfd, h.registered]
      refine exists_congr fun r' => and_congr_right fun hr' => and_congr_right fun hsockfd =>
        and_congr_right fun _ => ?_
      rw [hother hr' fun heq => hfd (heq ▸ hsockfd).symm]
  · rw [h.registered]
    refine exists_congr fun r' => and_congr_right fun hr' => and_congr_right fun _ => and_congr_right fun _ => ?_
    by_cases hne : r' = r
    · rw [hne, heffect.before, heffect.after]
      omega
    · rw [hother hr' hne]

/-- A step of the callback thread at an event. -/
theorem Accounted.eventStep (h : Accounted left s) (hinv : Inv s (r :: rest)) {label : EventLabel}
    (hstep : s.eventStep r.eparg (rest.map Request.eparg) label = some s') : Accounted left s' := by
  obtain ⟨k, k', heffect⟩ := hinv.eventEffect hstep
  obtain ⟨hheld, howns⟩ := h.owns_accepted hinv hinv.head_accepted
  have hsame (other : Stage) : Held s' left r.id other ↔ other = .allocated r.sockfd r.eparg :=
    (held_congr heffect.calls heffect.accepted).trans (hheld other)
  have hold : r.id < s'.fresh := heffect.fresh ▸ hinv.old r hinv.head_accepted
  exact h.frame (heffect.concerns howns) (.of_made hold hsame (heffect.owns howns))
    (fun _ hmem => absurd rfl ((h.rejected _ hmem).unaccepted r hinv.head_accepted)) (h.registered_event hinv heffect)

/-! ## Every run -/

/-- A call is made. -/
theorem Accounted.call (h : Accounted left s) (hostname source : List UInt8) (cb : C) :
    Accounted left { s with
      calls := Function.update s.calls s.fresh (some ⟨hostname, source, cb, .entered⟩)
      fresh := s.fresh + 1 } := by
  obtain ⟨hnone, howns⟩ := (h.holding s.fresh).unmade le_rfl
  have hleft (stage : Stage) : (s.fresh, stage) ∉ left := fun hmem => hnone stage (.rejected hmem)
  have haccepted : ∀ r ∈ s.accepted, r.id ≠ s.fresh := fun r hr howner => hnone _ (.accepted hr howner)
  set s' : State C := { s with
    calls := Function.update s.calls s.fresh (some ⟨hostname, source, cb, .entered⟩)
    fresh := s.fresh + 1 }
  have hcalls : s'.calls s.fresh = some ⟨hostname, source, cb, .entered⟩ := Function.update_self _ _ _
  have hconcerns : Concerns s s' s.fresh := by
    refine ⟨fun id' hid => ?_, fun id' hid => Function.update_of_ne hid _ _, fun _ _ => Iff.rfl, fun _ _ => rfl,
      fun _ _ _ => Iff.rfl, fun _ _ _ _ _ => Iff.rfl⟩
    exact Nat.lt_succ_iff_lt_or_eq.trans (or_iff_left hid)
  exact h.frame hconcerns
    (.of_made (Nat.lt_succ_self _) (held_calling hcalls hleft haccepted) ⟨howns.fds, howns.heap⟩)
    (fun stage hmem => absurd hmem (hleft stage)) h.registered

/-- `epoll_wait` changes nothing of the kind. -/
theorem Accounted.wait (h : Accounted left s) (events : List Ptr) (reported : List RequestId) :
    Accounted left { s with events := events, reported := reported } := by
  have hsame (id : RequestId) (stage : Stage) :
      Held { s with events := events, reported := reported } left id stage ↔ Held s left id stage :=
    held_congr rfl rfl
  refine ⟨fun id => ⟨fun hid => ?_, fun hid => ?_⟩, fun entry hentry => ?_, h.registered⟩
  · obtain ⟨stage, hheld, howns⟩ := (h.holding id).made hid
    exact ⟨stage, fun other => (hsame id other).trans (hheld other), howns.fds, howns.heap⟩
  · obtain ⟨hnone, howns⟩ := (h.holding id).unmade hid
    exact ⟨fun stage hheld => hnone stage ((hsame id stage).mp hheld), howns.fds, howns.heap⟩
  · obtain ⟨hreturned, hunaccepted, huntouched⟩ := h.rejected entry hentry
    exact ⟨hreturned, hunaccepted, huntouched⟩

/-- Every step of the system. -/
theorem Accounted.step (h : Accounted left s) (hinv : Inv s batch) {label : Label C} (hstep : Step s label s') :
    Accounted (left ++ label.rejection s) s' := by
  cases label with
  | call hostname source cb =>
    obtain rfl := Option.some.inj hstep
    exact (List.append_nil left).symm ▸ h.call hostname source cb
  | request id label =>
    obtain ⟨c, hc, hstep⟩ := Option.bind_eq_some_iff.mp hstep
    exact h.requestStep hinv hc hstep
  | wait ready =>
    obtain ⟨-, hstep⟩ := Option.ite_none_right_eq_some.mp hstep
    obtain rfl := Option.some.inj hstep
    exact (List.append_nil left).symm ▸ h.wait _ _
  | event label =>
    rw [Step, State.next, hinv.events] at hstep
    cases batch with
    | nil => contradiction
    | cons r rest => exact (List.append_nil left).symm ▸ h.eventStep hinv hstep

/-- Before the first call there is nothing. -/
theorem accounted_init : Accounted [] (State.init : State C) where
  holding id := by
    refine ⟨fun hid => absurd hid (Nat.not_lt_zero id),
      fun _ => ⟨fun stage hheld => ?_, fun fd => ?_, fun p => ?_⟩⟩
    · cases hheld with
      | calling hc => exact absurd hc (Option.some_ne_none _).symm
      | rejected hmem => exact absurd hmem List.not_mem_nil
      | accepted hr _ => exact absurd hr List.not_mem_nil
    · simp [State.init, Stage.sockfd]
    · simp [State.init, Stage.eparg]
  rejected _ hentry := absurd hentry List.not_mem_nil
  registered fd p := by simp [State.init]

/-- In every run, what is open, allocated or registered belongs to one request and to the stage that the request is at
or has ended at; what a rejected call holds is never closed or freed. -/
theorem accounted_of_run {labels : List (Label C)} (hrun : Run Step State.init labels s) :
    Accounted (rejections State.init labels) s := by
  have hall : ∀ {s t : State C} {labels : List (Label C)}, Run Step s labels t → ∀ {left batch}, Inv s batch →
      Accounted left s → Accounted (left ++ rejections s labels) t := by
    intro s t labels hrun
    induction hrun with
    | nil =>
      intro left batch _ h
      rwa [rejections, List.append_nil]
    | @cons s u t label rest hstep _ ih =>
      intro left batch hinv h
      obtain ⟨batch', hinv'⟩ := hinv.step hstep
      have hnext : s.next label = some u := hstep
      rw [rejections, hnext, Option.elim_some, ← List.append_assoc]
      exact ih hinv' (h.step hinv hstep)
  exact hall hrun inv_init accounted_init

/-- One request completed, and one whose connection is refused: the descriptor 6 stays open. -/
theorem accounted_of_run_refused : ∃ (s : State Unit) (labels : List (Label Unit)), s.fds 6 = some 1 ∧
    s.done 0 = 4 ∧ (rejections State.init labels).map Prod.fst = [1] ∧ Accounted (rejections State.init labels) s := by
  obtain ⟨labels, hlabels⟩ : ∃ labels : List (Label Unit), labels = [.call [97] [47] (), .request 0 (.socket 5),
      .call [98] [47] (), .request 1 (.socket 6), .request 0 .connect,
      .request 0 (.malloc 8 (List.replicate 1024 0)), .request 1 .reject, .request 0 .add, .wait [5],
      .event (.recv [72, 73]), .event .callback, .event .del, .event .close, .event .free] := ⟨_, rfl⟩
  have hrun : (replay State.next State.init labels).map (fun s : State Unit => (s.fds 6, s.done 0)) =
      some (some 1, 4) := by
    rw [hlabels]
    decide +kernel
  have hleft : (rejections State.init labels).map Prod.fst = [1] := by
    rw [hlabels]
    decide +kernel
  obtain ⟨s, hrun, hs⟩ := Option.map_eq_some_iff.mp hrun
  simp only [Prod.mk.injEq] at hs
  exact ⟨s, labels, hs.1, hs.2, hleft, accounted_of_run (Run.replay (fun _ _ _ hnext => hnext) hrun)⟩

end CppProject.HttpClient
