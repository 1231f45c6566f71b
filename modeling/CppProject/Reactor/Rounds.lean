import CppProject.Reactor.Registration
import CppProject.Reactor.Table

/-!
# Rounds in which calls fail

Batches as in `Batches`, but `fcntl` and `epoll_ctl` may fail as `accept` and `recv` may. `HandAccept` then leaves the
connection without a handle, or with a handle whose descriptor is not in the epoll set. Four things can happen in one
round, and each keeps the handles under their descriptors.
-/

namespace CppProject.Reactor

namespace State

open Transition

/-- The answers of the kernel and of `new` to a handler; all calls but `new` may fail. -/
structure Answers.Allowed (s : State) (answers : Answers) : Prop where
  accept : answers.accept = -1 ∨ 0 ≤ answers.accept ∧ s.kernel.opened answers.accept = none
  new : s.heap answers.new = none

instance (s : State) (answers : Answers) : Decidable (answers.Allowed s) :=
  decidable_of_iff ((answers.accept = -1 ∨ 0 ≤ answers.accept ∧ s.kernel.opened answers.accept = none) ∧
    s.heap answers.new = none) ⟨fun h => ⟨h.1, h.2⟩, fun h => ⟨h.accept, h.new⟩⟩

/-- One round of the loop of `wait_event`. -/
def Round (s : State) (ready : Ready) (s' : State) : Prop :=
  ready.answers.Allowed s ∧ s.dispatch ready = some s'

/-- `EpollDemultiplex::wait_event`, with the events that `epoll_wait` reports. -/
def Turn (s : State) (batch : List Ready) (s' : State) : Prop := Possible s batch ∧ Run Round s batch s'

/-- A round after checking its answers. -/
def checkRound (s : State) (ready : Ready) : Option State :=
  if ready.answers.Allowed s then s.dispatch ready else none

/-- A batch after checking that it is possible. -/
def checkTurn (s : State) (batch : List Ready) : Option State :=
  if Possible s batch then replay checkRound s batch else none

variable {lisfd : Fd} {s s' : State} {ready : Ready} {batch : List Ready} {batches : List (List Ready)}

/-- A checked batch is a batch. -/
theorem turn_of_check (h : s.checkTurn batch = some s') : Turn s batch s' := by
  rw [checkTurn] at h
  obtain ⟨hpossible, hrun⟩ := Option.ite_none_right_eq_some.mp h
  refine ⟨hpossible, Run.replay (fun s ready s' hready => ?_) hrun⟩
  rw [checkRound] at hready
  exact Option.ite_none_right_eq_some.mp hready

/-! ## One round -/

/-- After `accept` has returned a descriptor. -/
def connected (s : State) (answers : Answers) : State := { s with kernel := s.kernel.accept answers.accept }

/-- After the handle of the connection has been created and registered. -/
def filed (s : State) (answers : Answers) : State :=
  ((s.connected answers).newHandle answers.new answers.accept).registered answers.new ⟨answers.accept, 0⟩ eventRecv
    answers.epollCtl

/-- The event makes the listening handle accept a connection. -/
def Ready.Accepts (lisfd : Fd) (ready : Ready) : Prop :=
  ready.fd = lisfd ∧ ready.events &&& epollIn ≠ 0 ∧ ready.answers.accept ≠ -1

instance (lisfd : Fd) (ready : Ready) : Decidable (ready.Accepts lisfd) := inferInstanceAs (Decidable (_ ∧ _ ∧ _))

/-- Everything a round can do. -/
inductive Outcome (s : State) (ready : Ready) : State → Prop
  | unchanged : ((s.epEvents ready.fd).isSome → ¬ ready.Accepts s.socketfd) → Outcome s ready s
  | unfiled : ready.Accepts s.socketfd → ready.answers.fcntl < 0 → Outcome s ready (s.connected ready.answers)
  | filed : ready.Accepts s.socketfd → 0 ≤ ready.answers.fcntl → Outcome s ready (s.filed ready.answers)
  | closed : ready.fd ≠ s.socketfd → Outcome s ready { s with kernel := s.kernel.close ready.fd }

/-- `HandAccept` after `accept` and `fcntl` have succeeded. -/
theorem handAccept_of_filed {answers : Answers} (haccept : answers.accept ≠ -1) (hfcntl : ¬ answers.fcntl < 0) :
    s.handAccept answers = some (s.filed answers) := by
  have hhandle : ((s.connected answers).newHandle answers.new answers.accept).heap answers.new =
      some ⟨answers.accept, 0⟩ := Function.update_self _ _ _
  rw [handAccept, if_neg haccept]
  simp only [if_neg hfcntl]
  change Option.map Prod.snd (State.registerEventHandle ((s.connected answers).newHandle _ _) _ _ _) = _
  rw [registerEventHandle_eq hhandle]
  rfl

/-- Every round has one of the outcomes. -/
theorem Outcome.of_dispatch (h : Keyed s) (hdispatch : s.dispatch ready = some s') : Outcome s ready s' := by
  rw [dispatch] at hdispatch
  cases hentry : s.epEvents ready.fd with
  | none =>
    simp only [getEventHandle, hentry, Option.some.injEq] at hdispatch
    exact hdispatch ▸ .unchanged (by simp [hentry])
  | some event =>
    obtain ⟨status, hhandle⟩ := h ready.fd event hentry
    simp only [getEventHandle, hentry, hhandle, Option.bind_some] at hdispatch
    by_cases hin : ready.events &&& epollIn ≠ 0
    · rw [if_pos hin] at hdispatch
      by_cases hlisten : s.socketfd = ready.fd
      · rw [if_pos hlisten] at hdispatch
        by_cases haccept : ready.answers.accept = -1
        · rw [handAccept, if_pos haccept, Option.some.injEq] at hdispatch
          exact hdispatch ▸ .unchanged fun _ haccepts => haccepts.2.2 haccept
        · have haccepts : ready.Accepts s.socketfd := ⟨hlisten.symm, hin, haccept⟩
          by_cases hfcntl : ready.answers.fcntl < 0
          · rw [handAccept, if_neg haccept] at hdispatch
            simp only [if_pos hfcntl, Option.some.injEq] at hdispatch
            exact hdispatch ▸ .unfiled haccepts hfcntl
          · rw [handAccept_of_filed haccept hfcntl, Option.some.injEq] at hdispatch
            exact hdispatch ▸ .filed haccepts (Int.not_lt.mp hfcntl)
      · rw [if_neg hlisten, Option.some.injEq, handRecv, getEventHandle, hentry] at hdispatch
        by_cases hdata : ready.answers.recv > 0
        · simp only [hdata, if_true] at hdispatch
          exact hdispatch ▸ .unchanged fun _ haccepts => hlisten haccepts.1.symm
        · simp only [hdata, if_false, ite_self] at hdispatch
          exact hdispatch ▸ .closed (Ne.symm hlisten)
    · rw [if_neg hin, Option.some.injEq] at hdispatch
      exact hdispatch ▸ .unchanged fun _ haccepts => hin haccepts.2.1

/-! ## What a round leaves -/

/-- The new handle has its descriptor and counts as added. -/
theorem heap_filed (s : State) (answers : Answers) :
    (s.filed answers).heap = Function.update s.heap answers.new (some ⟨answers.accept, 1⟩) := by
  simp [filed, connected, newHandle, registered]

/-- The entries after a connection has been filed: the new handle is entered only if its descriptor has none. -/
theorem filed_epEvents {answers : Answers} {fd : Fd} {ptr : HandlePtr} :
    (s.filed answers).epEvents fd = some ptr ↔ s.epEvents fd = some ptr ∨
      s.epEvents fd = none ∧ fd = answers.accept ∧ ptr = answers.new := by
  change (if (s.epEvents answers.accept).isSome then s.epEvents
    else Function.update s.epEvents answers.accept (some answers.new)) fd = some ptr ↔ _
  by_cases hfd : fd = answers.accept
  · subst hfd
    cases hentry : s.epEvents answers.accept with
    | some _ => simp [hentry]
    | none => simp [eq_comm]
  · cases hentry : s.epEvents answers.accept with
    | some _ => simp [hfd]
    | none => simp [hfd]

/-- The descriptor of the new handle is in the epoll set unless `epoll_ctl` has failed. -/
theorem kernel_filed (s : State) (answers : Answers) : (s.filed answers).kernel =
    if answers.epollCtl < 0 then s.kernel.accept answers.accept
    else { s.kernel.accept answers.accept with
      epoll := Function.update s.kernel.epoll answers.accept (some epollIn) } := by
  have hevents : epollEvents eventRecv = epollIn := by decide
  rw [← hevents]
  exact epollCtl_epollOp (s.kernel.accept answers.accept) ⟨answers.accept, 0⟩ _ _ _

/-- The descriptors of the epoll set after a round. -/
theorem Outcome.epoll (h : Outcome s ready s') (fd : Fd) : s'.kernel.epoll fd = s.kernel.epoll fd ∨
    (fd = ready.fd ∧ s'.kernel.epoll fd = none) ∨
      (fd = ready.answers.accept ∧ ready.Accepts s.socketfd ∧ (s'.kernel.epoll fd).isSome) := by
  cases h with
  | unchanged => exact Or.inl rfl
  | unfiled => exact Or.inl rfl
  | filed haccepts =>
    rw [kernel_filed]
    split
    · exact Or.inl rfl
    · by_cases hfd : fd = ready.answers.accept
      · exact Or.inr (Or.inr ⟨hfd, haccepts, by simp [hfd]⟩)
      · exact Or.inl (Function.update_of_ne hfd _ _)
  | closed =>
    by_cases hfd : fd = ready.fd
    · exact Or.inr (Or.inl ⟨hfd, by rw [hfd]; exact Function.update_self _ _ _⟩)
    · exact Or.inl (Function.update_of_ne hfd _ _)

/-- A round leaves the other descriptors in the epoll set. -/
theorem Outcome.listed (h : Outcome s ready s') {fd : Fd} (hfd : fd ≠ ready.fd)
    (hlisted : (s.kernel.epoll fd).isSome) : (s'.kernel.epoll fd).isSome := by
  rcases h.epoll fd with hsame | ⟨heq, -⟩ | ⟨-, -, hadded⟩
  · rwa [hsame]
  · exact absurd heq hfd
  · exact hadded

/-- A round files handles under their descriptors, and leaves the old ones where they are. -/
theorem Keyed.outcome (h : Keyed s) (hallowed : ready.answers.Allowed s) (houtcome : Outcome s ready s') :
    Keyed s' := by
  cases houtcome with
  | unchanged => exact h
  | unfiled => exact h
  | closed => exact h
  | filed =>
    intro fd ptr hentry
    rcases filed_epEvents.mp hentry with hold | ⟨-, rfl, rfl⟩
    · obtain ⟨status, hhandle⟩ := h fd ptr hold
      have hne : ptr ≠ ready.answers.new := fun heq => by
        rw [heq, hallowed.new] at hhandle
        contradiction
      exact ⟨status, by rw [heap_filed, Function.update_of_ne hne, hhandle]⟩
    · exact ⟨1, by rw [heap_filed, Function.update_self]⟩

/-- Rounds for other descriptors leave a descriptor in the epoll set. -/
theorem Keyed.listed_of_rounds (h : Keyed s) {fd : Fd} (hne : ∀ ready ∈ batch, fd ≠ ready.fd)
    (hlisted : (s.kernel.epoll fd).isSome) (hrun : Run Round s batch s') : (s'.kernel.epoll fd).isSome := by
  induction hrun with
  | nil => exact hlisted
  | @cons s t u ready rest hround _ ih =>
    have houtcome := Outcome.of_dispatch h hround.2
    obtain ⟨hready, hrest⟩ := List.forall_mem_cons.mp hne
    exact ih (h.outcome hround.1 houtcome) hrest (houtcome.listed hready hlisted)

/-- Within a batch every descriptor is still in the epoll set when its event is handled. -/
theorem Keyed.listed_rounds (h : Keyed s) (hdistinct : (batch.map Ready.fd).Nodup)
    (hlisted : ∀ ready ∈ batch, Listed s ready) (hrun : Run Round s batch s') :
    Run (Restrict Round Listed) s batch s' := by
  induction hrun with
  | nil => exact .nil
  | @cons s t u ready rest hround _ ih =>
    have houtcome := Outcome.of_dispatch h hround.2
    obtain ⟨hnot, hrest⟩ := List.nodup_cons.mp hdistinct
    refine .cons ⟨hround, hlisted ready List.mem_cons_self⟩
      (ih (h.outcome hround.1 houtcome) hrest fun other hother => ?_)
    have hne : other.fd ≠ ready.fd := fun heq => hnot (heq ▸ List.mem_map_of_mem hother)
    exact houtcome.listed hne (hlisted other (List.mem_cons_of_mem ready hother))

end State

end CppProject.Reactor
