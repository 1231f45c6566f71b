import CppProject.Lib.Transition
import Mathlib.Data.List.Perm.Basic
import Mathlib.Data.List.Nodup
import Mathlib.Order.Lattice

/-!
# A queue of timers

What a queue of timers is for: timers are added, each with the time it is due, and may be cancelled; a poll at a
time fires the timers that are due by then, in the order of their times. The queue keeps a log of what has happened.
The log alone tells which timers are pending: those added and since then neither cancelled nor reached by the time of
a poll. So a timer is fired by the first poll since it was added that reaches its time, if it is not cancelled before.
Nothing is assumed of the times of the polls; if they do not go back and no timer is added for an earlier time, all
timers fire in the order of their times.
-/

namespace TimerQueue

variable {ι κ : Type*}

/-- What happens to a queue: a timer is added with the time it is due, a timer is cancelled, or a poll fires timers. -/
inductive Event (ι κ : Type*)
  | add (i : ι) (due : κ)
  | cancel (i : ι)
  | poll (now : κ) (fired : List (ι × κ))

/-- The timer that is added. -/
@[simp] def Event.added? : Event ι κ → Option (ι × κ)
  | .add i due => some (i, due)
  | .cancel _ => none
  | .poll _ _ => none

/-- The timer that is cancelled. -/
@[simp] def Event.cancelled? : Event ι κ → Option ι
  | .add _ _ => none
  | .cancel i => some i
  | .poll _ _ => none

/-- The timers that are fired. -/
@[simp] def Event.fired : Event ι κ → List (ι × κ)
  | .add _ _ => []
  | .cancel _ => []
  | .poll _ fired => fired

/-- The time of a poll. -/
@[simp] def Event.now? : Event ι κ → Option κ
  | .add _ _ => none
  | .cancel _ => none
  | .poll now _ => some now

/-- The timers added, in order. -/
def added (log : List (Event ι κ)) : List (ι × κ) := log.filterMap Event.added?

/-- The timers cancelled, in order. -/
def cancelled (log : List (Event ι κ)) : List ι := log.filterMap Event.cancelled?

/-- The timers fired, in order. -/
def fired (log : List (Event ι κ)) : List (ι × κ) := log.flatMap Event.fired

/-- The times of the polls, in order. -/
def polls (log : List (Event ι κ)) : List κ := log.filterMap Event.now?

section Append

variable (log : List (Event ι κ)) (event : Event ι κ)

/-- An addition adds its timer, and other events add none. -/
@[simp] theorem added_append : added (log ++ [event]) = added log ++ event.added?.toList := by
  cases event <;> simp [added]

/-- A cancellation cancels its timer, and other events cancel none. -/
@[simp] theorem cancelled_append : cancelled (log ++ [event]) = cancelled log ++ event.cancelled?.toList := by
  cases event <;> simp [cancelled]

/-- A poll fires its timers, and other events fire none. -/
@[simp] theorem fired_append : fired (log ++ [event]) = fired log ++ event.fired := by simp [fired]

/-- A poll has its time, and other events have none. -/
@[simp] theorem polls_append : polls (log ++ [event]) = polls log ++ event.now?.toList := by
  cases event <;> simp [polls]

end Append

/-- The pending timers, and what has happened, oldest first. -/
structure State (ι κ : Type*) where
  pending : List (ι × κ)
  log : List (Event ι κ)

/-- The queue at first. -/
def State.new (ι κ : Type*) : State ι κ := ⟨[], []⟩

variable [LinearOrder κ]

/-- One operation. -/
inductive Step (s : State ι κ) : Event ι κ → State ι κ → Prop
  | add {i : ι} {due : κ} : i ∉ (added s.log).map Prod.fst →
      Step s (.add i due) ⟨(i, due) :: s.pending, s.log ++ [.add i due]⟩
  | cancel {t : ι × κ} {rest : List (ι × κ)} : s.pending.Perm (t :: rest) →
      Step s (.cancel t.1) ⟨rest, s.log ++ [.cancel t.1]⟩
  | poll {now : κ} {fired : List (ι × κ)} : fired.Perm (s.pending.filter fun t => t.2 ≤ now) →
      fired.Pairwise (fun t u => t.2 ≤ u.2) →
      Step s (.poll now fired) ⟨s.pending.filter fun t => now < t.2, s.log ++ [.poll now fired]⟩

/-- The states of all runs. -/
def Reachable : State ι κ → Prop := Transition.Reachable (· = State.new ι κ) Step

/-! ## The log -/

/-- The timer was added, and since then it has neither been cancelled nor reached by the time of a poll. -/
def Waiting (log : List (Event ι κ)) (t : ι × κ) : Prop :=
  ∃ before after, log = before ++ .add t.1 t.2 :: after ∧ Event.cancel t.1 ∉ after ∧ ∀ now ∈ polls after, now < t.2

/-- What may happen after what has happened: a new timer is added, a waiting timer is cancelled, and a poll fires the
waiting timers that are due by its time, in the order of their times, and no others. -/
def Event.Lawful (log : List (Event ι κ)) : Event ι κ → Prop
  | .add i _ => i ∉ (added log).map Prod.fst
  | .cancel i => ∃ due, Waiting log (i, due)
  | .poll now fired => (∀ t, t ∈ fired ↔ Waiting log t ∧ t.2 ≤ now) ∧ fired.Pairwise fun t u => t.2 ≤ u.2

/-- Every event was lawful when it happened, and no timer is lost or doubled. -/
structure Sound (s : State ι κ) : Prop where
  nodup : ((added s.log).map Prod.fst).Nodup
  pending : ∀ t, t ∈ s.pending ↔ Waiting s.log t
  conserved : ((added s.log).map Prod.fst).Perm
    (s.pending.map Prod.fst ++ cancelled s.log ++ (fired s.log).map Prod.fst)
  lawful : ∀ before event after, s.log = before ++ event :: after → event.Lawful before

variable {s s' : State ι κ} {log before after : List (Event ι κ)} {event other : Event ι κ} {t u : ι × κ}

omit [LinearOrder κ] in
/-- An event of a longer log is the last one or one of the shorter log. -/
theorem append_singleton_eq_append_cons : log ++ [event] = before ++ other :: after ↔
    (after = [] ∧ log = before ∧ event = other) ∨ ∃ rest, after = rest ++ [event] ∧ log = before ++ other :: rest := by
  rcases List.eq_nil_or_concat after with rfl | ⟨rest, last, rfl⟩
  · simp
  · have hassoc : before ++ other :: (rest ++ [last]) = before ++ other :: rest ++ [last] := by simp
    rw [List.concat_eq_append, hassoc]
    constructor
    · intro h
      obtain ⟨rfl, hlast⟩ := List.append_inj' h rfl
      exact Or.inr ⟨rest, by rw [List.singleton_inj.mp hlast], rfl⟩
    · rintro (⟨hnil, -, -⟩ | ⟨rest', hrest, rfl⟩)
      · simp at hnil
      · obtain ⟨rfl, hlast⟩ := List.append_inj' hrest rfl
        rw [hlast]

/-- A timer that waits is the one just added, or has been waiting and is neither cancelled nor reached. -/
theorem waiting_append : Waiting (log ++ [event]) t ↔
    event = .add t.1 t.2 ∨ Waiting log t ∧ event ≠ .cancel t.1 ∧ ∀ now, event.now? = some now → now < t.2 := by
  constructor
  · rintro ⟨before, after, hlog, hcancel, hpolls⟩
    rcases append_singleton_eq_append_cons.mp hlog with ⟨-, -, hadd⟩ | ⟨rest, rfl, rfl⟩
    · exact Or.inl hadd
    · refine Or.inr ⟨⟨before, rest, rfl, fun hmem => hcancel (List.mem_append_left _ hmem), fun now hnow => ?_⟩,
        fun heq => hcancel (by simp [heq]), fun now hnow => ?_⟩
      · exact hpolls now (polls_append rest event ▸ List.mem_append_left _ hnow)
      · exact hpolls now (by rw [polls_append, hnow]; simp)
  · rintro (rfl | ⟨⟨before, after, rfl, hcancel, hpolls⟩, hother, hnow⟩)
    · exact ⟨log, [], rfl, List.not_mem_nil, by simp [polls]⟩
    · refine ⟨before, after ++ [event], by simp, fun hmem => ?_, fun now hmem => ?_⟩
      · rcases List.mem_append.mp hmem with hmem | hmem
        · exact hcancel hmem
        · exact hother (List.mem_singleton.mp hmem).symm
      · rw [polls_append, List.mem_append, Option.mem_toList] at hmem
        exact hmem.elim (hpolls now) (hnow now)

/-- A timer that waits was added. -/
theorem Waiting.mem_added (h : Waiting log t) : t ∈ added log := by
  obtain ⟨before, after, rfl, -⟩ := h
  simp [added]

/-! ## Every run -/

/-- A poll separates the timers that are due from the others. -/
theorem perm_due_append (now : κ) (timers : List (ι × κ)) :
    timers.Perm ((timers.filter fun t => now < t.2) ++ timers.filter fun t => t.2 ≤ now) := by
  have hsplit := (List.filter_append_perm (fun t : ι × κ => decide (now < t.2)) timers).symm
  simpa only [← decide_not, not_lt] using hsplit

/-- A lawful event keeps the log lawful. -/
theorem Sound.lawful_append (h : Sound s) (hevent : event.Lawful s.log)
    (hsplit : s.log ++ [event] = before ++ other :: after) : other.Lawful before := by
  rcases append_singleton_eq_append_cons.mp hsplit with ⟨-, rfl, rfl⟩ | ⟨rest, -, hlog⟩
  · exact hevent
  · exact h.lawful before other rest hlog

/-- Timers that wait under one identifier are one timer. -/
theorem Sound.eq_of_waiting (h : Sound s) (ht : Waiting s.log t) (hu : Waiting s.log u) (heq : t.1 = u.1) : t = u :=
  List.inj_on_of_nodup_map h.nodup ht.mem_added hu.mem_added heq

/-- No timer is pending twice. -/
theorem Sound.nodup_pending (h : Sound s) : s.pending.Nodup := by
  have hids := h.conserved.nodup_iff.mp h.nodup
  rw [List.append_assoc, List.nodup_append] at hids
  exact List.Nodup.of_map _ hids.1

/-- An addition keeps the queue sound. -/
theorem Sound.add (h : Sound s) {i : ι} (hi : i ∉ (added s.log).map Prod.fst) (due : κ) :
    Sound ⟨(i, due) :: s.pending, s.log ++ [.add i due]⟩ := by
  have hadded : added (s.log ++ [.add i due]) = added s.log ++ [(i, due)] := by simp
  have hcancelled : cancelled (s.log ++ [.add i due]) = cancelled s.log := by simp
  have hfired : fired (s.log ++ [.add i due]) = fired s.log := by simp
  refine ⟨?_, fun t => ?_, ?_, fun _ _ _ => h.lawful_append hi⟩
  · rw [hadded, List.map_append]
    exact h.nodup.append (List.nodup_singleton i) (by simpa using hi)
  · rw [waiting_append, List.mem_cons, h.pending]
    simp [Prod.ext_iff, eq_comm]
  · rw [hadded, hcancelled, hfired, List.map_append]
    exact (List.perm_append_singleton _ _).trans (h.conserved.cons i)

/-- A cancellation keeps the queue sound. -/
theorem Sound.cancel (h : Sound s) {rest : List (ι × κ)} (hperm : s.pending.Perm (t :: rest)) :
    Sound ⟨rest, s.log ++ [.cancel t.1]⟩ := by
  have hadded : added (s.log ++ [.cancel t.1]) = added s.log := by simp
  have hcancelled : cancelled (s.log ++ [.cancel t.1]) = cancelled s.log ++ [t.1] := by simp
  have hfired : fired (s.log ++ [.cancel t.1]) = fired s.log := by simp
  have ht : Waiting s.log t := (h.pending t).mp (hperm.mem_iff.mpr List.mem_cons_self)
  refine ⟨hadded ▸ h.nodup, fun u => ?_, ?_, fun _ _ _ => h.lawful_append ⟨t.2, ht⟩⟩
  · rw [waiting_append]
    constructor
    · intro hu
      have hwaiting := (h.pending u).mp (hperm.mem_iff.mpr (List.mem_cons_of_mem _ hu))
      refine Or.inr ⟨hwaiting, fun heq => ?_, by simp⟩
      obtain rfl : t = u := h.eq_of_waiting ht hwaiting (by simpa using heq)
      exact (List.nodup_cons.mp (hperm.nodup_iff.mp h.nodup_pending)).1 hu
    · rintro (hadd | ⟨hwaiting, hother, -⟩)
      · simp at hadd
      · have hmem := hperm.mem_iff.mp ((h.pending u).mpr hwaiting)
        exact (List.mem_cons.mp hmem).resolve_left fun heq => hother (by rw [heq])
  · rw [hadded, hcancelled, hfired]
    refine h.conserved.trans (List.Perm.append_right _ ?_)
    have hids := (hperm.map Prod.fst).append_right (cancelled s.log)
    rw [← List.append_assoc]
    exact hids.trans (List.perm_append_singleton _ _).symm

/-- A poll keeps the queue sound. -/
theorem Sound.poll (h : Sound s) {now : κ} {due : List (ι × κ)}
    (hdue : due.Perm (s.pending.filter fun t => t.2 ≤ now)) (hsorted : due.Pairwise fun t u => t.2 ≤ u.2) :
    Sound ⟨s.pending.filter fun t => now < t.2, s.log ++ [.poll now due]⟩ := by
  have hadded : added (s.log ++ [.poll now due]) = added s.log := by simp
  have hcancelled : cancelled (s.log ++ [.poll now due]) = cancelled s.log := by simp
  have hfired : fired (s.log ++ [.poll now due]) = fired s.log ++ due := by simp
  refine ⟨hadded ▸ h.nodup, fun t => ?_, ?_, fun _ _ _ => h.lawful_append ⟨fun t => ?_, hsorted⟩⟩
  · rw [waiting_append, List.mem_filter, h.pending]
    simp
  · have hids := (perm_due_append now s.pending).map Prod.fst
    rw [hadded, hcancelled, hfired]
    refine h.conserved.trans ?_
    simp only [List.map_append, List.append_assoc] at hids ⊢
    refine (hids.append_right _).trans ?_
    rw [List.append_assoc]
    refine List.Perm.append_left _ ?_
    -- the timers that are due go behind those that were fired before
    refine List.perm_append_comm.trans ?_
    rw [List.append_assoc]
    exact List.Perm.append_left _ (List.Perm.append_left _ (hdue.symm.map Prod.fst))
  · rw [hdue.mem_iff, List.mem_filter, h.pending, decide_eq_true_eq]

/-- One operation keeps the queue sound. -/
theorem Sound.step (h : Sound s) (hstep : Step s event s') : Sound s' := by
  cases hstep with
  | add hi => exact h.add hi _
  | cancel hperm => exact h.cancel hperm
  | poll hdue hsorted => exact h.poll hdue hsorted

/-- Nothing has happened to a new queue. -/
theorem Sound.new : Sound (State.new ι κ) :=
  ⟨List.nodup_nil, fun t => by simp [State.new, Waiting], List.Perm.refl _,
    fun _ _ _ hlog => by simp [State.new] at hlog⟩

/-- In every run the queue is sound. -/
theorem Reachable.sound (h : Reachable s) : Sound s :=
  Transition.Reachable.invariant (fun _ hs => hs ▸ .new) (fun _ _ _ hs hstep => hs.step hstep) h

/-! ## Runs that go forward -/

/-- A step that does not go back in time: no timer is added for a time before a poll, and no poll is. -/
def Forward (s : State ι κ) : Event ι κ → Prop
  | .add _ due => ∀ p ∈ polls s.log, p ≤ due
  | .cancel _ => True
  | .poll now _ => ∀ p ∈ polls s.log, p ≤ now

/-- The timers have fired in the order of their times, and none is left behind. -/
structure InOrder (s : State ι κ) : Prop where
  fired : ((fired s.log).map Prod.snd).Pairwise (· ≤ ·)
  reached : ∀ t ∈ TimerQueue.fired s.log, ∃ p ∈ polls s.log, t.2 ≤ p
  pending : ∀ t ∈ s.pending, ∀ p ∈ polls s.log, p ≤ t.2

/-- A poll keeps the order. -/
theorem InOrder.poll (h : InOrder s) {now : κ} {due : List (ι × κ)}
    (hdue : due.Perm (s.pending.filter fun t => t.2 ≤ now)) (hsorted : due.Pairwise fun t u => t.2 ≤ u.2) :
    InOrder ⟨s.pending.filter fun t => now < t.2, s.log ++ [.poll now due]⟩ := by
  have hfired : TimerQueue.fired (s.log ++ [.poll now due]) = TimerQueue.fired s.log ++ due := by simp
  have hpolls : polls (s.log ++ [.poll now due]) = polls s.log ++ [now] := by simp
  have hmem : ∀ t ∈ due, t ∈ s.pending ∧ t.2 ≤ now := fun t ht => by simpa using hdue.mem_iff.mp ht
  refine ⟨?_, ?_, ?_⟩
  · rw [hfired, List.map_append]
    refine List.pairwise_append.mpr ⟨h.fired, List.pairwise_map.mpr hsorted, fun a ha b hb => ?_⟩
    -- what has fired was due by an earlier poll, and what fires now was not
    obtain ⟨t, ht, rfl⟩ := List.mem_map.mp ha
    obtain ⟨u, hu, rfl⟩ := List.mem_map.mp hb
    obtain ⟨p, hp, hle⟩ := h.reached t ht
    exact hle.trans (h.pending u (hmem u hu).1 p hp)
  · rw [hfired, hpolls]
    intro t ht
    rcases List.mem_append.mp ht with ht | ht
    · obtain ⟨p, hp, hle⟩ := h.reached t ht
      exact ⟨p, List.mem_append_left _ hp, hle⟩
    · exact ⟨now, by simp, (hmem t ht).2⟩
  · rw [hpolls]
    intro t ht p hp
    obtain ⟨ht, hlater⟩ := List.mem_filter.mp ht
    rcases List.mem_append.mp hp with hp | hp
    · exact h.pending t ht p hp
    · rw [List.mem_singleton.mp hp]
      exact (of_decide_eq_true hlater).le

/-- A step forward keeps the order. -/
theorem InOrder.step (h : InOrder s) (hstep : Step s event s') (hforward : Forward s event) :
    InOrder s' := by
  cases hstep with
  | @add i due =>
    have hfired : TimerQueue.fired (s.log ++ [.add i due]) = TimerQueue.fired s.log := by simp
    have hpolls : polls (s.log ++ [.add i due]) = polls s.log := by simp
    exact ⟨hfired ▸ h.fired, by rw [hfired, hpolls]; exact h.reached,
      by rw [hpolls]; exact List.forall_mem_cons.mpr ⟨hforward, h.pending⟩⟩
  | @cancel t rest hperm =>
    have hfired : TimerQueue.fired (s.log ++ [.cancel t.1]) = TimerQueue.fired s.log := by simp
    have hpolls : polls (s.log ++ [.cancel t.1]) = polls s.log := by simp
    exact ⟨hfired ▸ h.fired, by rw [hfired, hpolls]; exact h.reached,
      by rw [hpolls]; exact fun u hu => h.pending u (hperm.mem_iff.mpr (List.mem_cons_of_mem _ hu))⟩
  | poll hdue hsorted => exact h.poll hdue hsorted

/-- Nothing has fired in a new queue. -/
theorem InOrder.new : InOrder (State.new ι κ) :=
  ⟨List.Pairwise.nil, fun _ ht => absurd ht List.not_mem_nil, by simp [State.new]⟩

/-- In every run that goes forward all timers have fired in the order of their times. -/
theorem Reachable.inOrder (h : Transition.Reachable (· = State.new ι κ) (Transition.Restrict Step Forward) s) :
    InOrder s :=
  Transition.Reachable.invariant (fun _ hs => hs ▸ .new) (fun _ _ _ hs hstep => hs.step hstep.1 hstep.2) h

end TimerQueue
