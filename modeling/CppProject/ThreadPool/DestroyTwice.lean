import CppProject.ThreadPool.Teardown

/-!
# When the teardown runs once

If no other call waits for the queue to drain when a call closes the pool, and no call begins after
the mutex has been destroyed, then one call at most tears the pool down and every other one is
refused. If another call does wait at that point, the mutex is not destroyed without harm: that call
is still in its wait, or has closed the pool as well.
-/

namespace CppProject.ThreadPool

variable {n : ℕ} {P D : Type*} {s s' : State n P D}

/-- One call at most tears the pool down, each resource is released at most once, and no call waits
with a destroyed mutex. -/
structure TornDownOnce (s : State n P D) : Prop where
  once : ∀ d d', (s.destroyer d).Closing → (s.destroyer d').Closing → d = d'
  released : s.released.Nodup
  noWaiter : .mutex ∈ s.released → ∀ d, ¬ (s.destroyer d).InWait

/-- The step acquires the destroyed mutex, at the beginning of a call or after a wait. -/
def LocksDestroyed (s : State n P D) : Label n P D → Prop
  | .destroy d => .mutex ∈ s.released ∧ (s.destroyer d = .start ∨ s.destroyer d = .woken)
  | .spuriousDestroyer _ => .mutex ∈ s.released
  | _ => False

/-- A call begins before the mutex is destroyed, and closes the pool when no other call waits. -/
def CallsInTime (s : State n P D) : Label n P D → Prop
  | .destroy d => (s.destroyer d = .start → .mutex ∉ s.released) ∧
      (s.Closes d → ∀ d', d' ≠ d → ¬ (s.destroyer d').InWait)
  | _ => True

instance CallsInTime.decidable [Fintype D] [DecidableEq D] (s : State n P D) :
    (label : Label n P D) → Decidable (CallsInTime s label)
  | .destroy d => inferInstanceAs (Decidable ((s.destroyer d = .start → .mutex ∉ s.released) ∧
      (s.Closes d → ∀ d', d' ≠ d → ¬ (s.destroyer d').InWait)))
  | .addJob _ _ => inferInstanceAs (Decidable True)
  | .work _ _ => inferInstanceAs (Decidable True)
  | .invoke _ => inferInstanceAs (Decidable True)
  | .callbackReturn _ => inferInstanceAs (Decidable True)
  | .freeJob _ => inferInstanceAs (Decidable True)
  | .spuriousWorker _ => inferInstanceAs (Decidable True)
  | .spuriousProducer _ => inferInstanceAs (Decidable True)
  | .spuriousDestroyer _ => inferInstanceAs (Decidable True)

/-- A closed pool has an empty queue, no call that waits, and one call that tears it down. -/
structure ClosedOnce (s : State n P D) : Prop where
  closed : ∀ d, (s.destroyer d).Closing → s.pool.mPoolIsClose = true
  count : s.pool.mPoolIsClose = true → s.pool.mCurQueueJobNum = 0
  quiet : s.pool.mPoolIsClose = true → ∀ d, ¬ (s.destroyer d).InWait
  once : ∀ d d', (s.destroyer d).Closing → (s.destroyer d').Closing → d = d'
  pending : ∀ d, (s.destroyer d).Closing → s.released ++ (s.destroyer d).pending = resources
  untouched : (∀ d, ¬ (s.destroyer d).Closing) → s.released = []

/-- After `Init` no call tears the pool down. -/
theorem closedOnce_new (queueMaxNum : ℤ) (quota : P → ℕ) : ClosedOnce (State.new n D queueMaxNum quota) where
  closed := fun d hd => False.elim hd
  count := fun hclosed => absurd hclosed (by simp [State.new, Pool.new])
  quiet := fun hclosed => absurd hclosed (by simp [State.new, Pool.new])
  once := fun d d' hd => False.elim hd
  pending := fun d hd => False.elim hd
  untouched := fun _ => rfl

namespace ClosedOnce

/-- The one call that tears the pool down has something to show for what is released. -/
theorem exists_closing (h : ClosedOnce s) (hreleased : s.released ≠ []) : ∃ d, (s.destroyer d).Closing :=
  not_forall_not.mp fun hnone => hreleased (h.untouched hnone)

/-- Then one call at most tears the pool down. -/
theorem tornDownOnce (h : ClosedOnce s) : TornDownOnce s where
  once := h.once
  released := by
    by_cases hnone : ∀ d, ¬ (s.destroyer d).Closing
    · rw [h.untouched hnone]
      exact List.nodup_nil
    · obtain ⟨d, hd⟩ := not_forall_not.mp hnone
      have hall : (s.released ++ (s.destroyer d).pending).Nodup := by
        rw [h.pending d hd]
        decide
      exact hall.of_append_left
  noWaiter := fun hmutex => by
    obtain ⟨d, hd⟩ := h.exists_closing (List.ne_nil_of_mem hmutex)
    exact h.quiet (h.closed d hd)

/-- Steps of the other threads keep it so. -/
theorem outside (h : ClosedOnce s) (hstep : Outside s s') : ClosedOnce s' where
  closed := fun d hd => by
    rw [hstep.closing_eq (Or.inr hd)] at hd
    rw [hstep.closed]
    exact h.closed d hd
  count := fun hclosed => by
    rw [hstep.closed] at hclosed
    rw [hstep.count hclosed]
    exact h.count hclosed
  quiet := fun hclosed d => by
    rw [hstep.inWait_iff]
    exact h.quiet (hstep.closed ▸ hclosed) d
  once := fun d d' hd hd' => by
    rw [hstep.closing_eq (Or.inr hd)] at hd
    rw [hstep.closing_eq (Or.inr hd')] at hd'
    exact h.once d d' hd hd'
  pending := fun d hd => by
    have heq := hstep.closing_eq (Or.inr hd)
    rw [heq] at hd
    rw [heq, hstep.released]
    exact h.pending d hd
  untouched := fun hnone => by
    rw [hstep.released]
    refine h.untouched fun d hd => hnone d ?_
    rwa [hstep.closing_eq (Or.inl hd)]

variable [DecidableEq D] {d : D} {phase : DestroyPhase}

/-- The calls in the teardown, after one of them has moved or none has. -/
theorem closing_update_iff (hphase : phase.Closing ↔ (s.destroyer d).Closing) (d' : D) :
    (Function.update s.destroyer d phase d').Closing ↔ (s.destroyer d').Closing := by
  by_cases heq : d' = d
  · rw [heq, Function.update_self, hphase]
  · rw [Function.update_of_ne heq]

/-- A call outside the teardown moves, and not into it. -/
theorem outsideMoved (h : ClosedOnce s) (hd : ¬ (s.destroyer d).Closing) (hphase : ¬ phase.Closing)
    (hwait : phase.InWait → s.pool.mPoolIsClose = false) : ClosedOnce (s.setDestroyer d phase) := by
  have hclosing : ∀ d', (Function.update s.destroyer d phase d').Closing ↔ (s.destroyer d').Closing :=
    closing_update_iff (iff_of_false hphase hd)
  refine ⟨fun d' hd' => h.closed d' ((hclosing d').mp hd'), h.count, fun hclosed d' => ?_,
    fun d₁ d₂ h₁ h₂ => h.once d₁ d₂ ((hclosing d₁).mp h₁) ((hclosing d₂).mp h₂), fun d' hd' => ?_,
    fun hnone => h.untouched fun d' hd' => hnone d' ((hclosing d').mpr hd')⟩
  · have hclosed : s.pool.mPoolIsClose = true := hclosed
    rw [State.setDestroyer_destroyer]
    by_cases heq : d' = d
    · rw [heq, Function.update_self]
      exact fun hin => absurd hclosed (by simp [hwait hin])
    · rw [Function.update_of_ne heq]
      exact h.quiet hclosed d'
  · have hd' := (hclosing d').mp hd'
    have hne : d' ≠ d := fun heq => hd (heq ▸ hd')
    rw [State.setDestroyer_destroyer, Function.update_of_ne hne]
    exact h.pending d' hd'

/-- The call in the teardown moves within it. -/
theorem advanced (h : ClosedOnce s) (phase : DestroyPhase) (hd : (s.destroyer d).Closing) (hphase : phase.Closing)
    (hclosed : s'.pool.mPoolIsClose = s.pool.mPoolIsClose)
    (hcount : s'.pool.mCurQueueJobNum = s.pool.mCurQueueJobNum)
    (hdestroyer : s'.destroyer = Function.update s.destroyer d phase)
    (hpending : s'.released ++ phase.pending = resources) : ClosedOnce s' := by
  have hclosing : ∀ d', (s'.destroyer d').Closing ↔ (s.destroyer d').Closing := by
    rw [hdestroyer]
    exact closing_update_iff (iff_of_true hphase hd)
  have hself : s'.destroyer d = phase := by rw [hdestroyer, Function.update_self]
  refine ⟨fun d' hd' => hclosed ▸ h.closed d' ((hclosing d').mp hd'), fun hc => ?_, fun hc d' => ?_,
    fun d₁ d₂ h₁ h₂ => h.once d₁ d₂ ((hclosing d₁).mp h₁) ((hclosing d₂).mp h₂), fun d' hd' => ?_,
    fun hnone => absurd (hself ▸ hphase) (hnone d)⟩
  · rw [hcount]
    exact h.count (hclosed ▸ hc)
  · by_cases heq : d' = d
    · rw [heq, hself]
      exact fun hin => hin.not_closing hphase
    · rw [hdestroyer, Function.update_of_ne heq]
      exact h.quiet (hclosed ▸ hc) d'
  · obtain rfl := h.once d' d ((hclosing d').mp hd') hd
    rw [hself]
    exact hpending

/-- A call closes the pool while no other one waits. -/
theorem close (h : ClosedOnce s) (hcloses : s.Closes d) (hquiet : ∀ d', d' ≠ d → ¬ (s.destroyer d').InWait) :
    ClosedOnce ({ s with pool.mPoolIsClose := true }.setDestroyer d .broadcastNotEmpty) := by
  obtain ⟨hcount, hd⟩ := hcloses
  have hopen : s.pool.mPoolIsClose = false := by
    rcases hd with ⟨-, hopen⟩ | hwoken
    · exact hopen
    · exact Bool.eq_false_iff.mpr fun hclosed => h.quiet hclosed d (Or.inr hwoken)
  have hnone : ∀ d', ¬ (s.destroyer d').Closing := fun d' hd' =>
    absurd (h.closed d' hd') (by simp [hopen])
  have honly : ∀ d', (Function.update s.destroyer d .broadcastNotEmpty d').Closing → d' = d := fun d' hd' => by
    by_contra hne
    rw [Function.update_of_ne hne] at hd'
    exact hnone d' hd'
  refine ⟨fun _ _ => rfl, fun _ => hcount, fun _ d' => ?_,
    fun d₁ d₂ h₁ h₂ => (honly d₁ h₁).trans (honly d₂ h₂).symm, fun d' hd' => ?_, fun hnone' => ?_⟩
  · rw [State.setDestroyer_destroyer]
    by_cases heq : d' = d
    · rw [heq, Function.update_self]
      exact fun hin => hin.not_closing trivial
    · rw [Function.update_of_ne heq]
      exact hquiet d' heq
  · obtain rfl := honly d' hd'
    rw [State.setDestroyer_destroyer, Function.update_self, State.setDestroyer_released, h.untouched hnone]
    rfl
  · refine absurd ?_ (hnone' d)
    rw [State.setDestroyer_destroyer, Function.update_self]
    trivial

/-- A step of a call. -/
theorem own (h : ClosedOnce s) (heffect : Teardown s d s')
    (hquiet : s.Closes d → ∀ d', d' ≠ d → ¬ (s.destroyer d').InWait) : ClosedOnce s' := by
  cases heffect with
  | refuse hd =>
    exact h.outsideMoved (by rw [hd]; exact id) id (fun hin => by rcases hin with hin | hin <;> contradiction)
  | wait hd hcount =>
    have hopen : s.pool.mPoolIsClose = false := Bool.eq_false_iff.mpr fun hclosed => hcount (h.count hclosed)
    refine h.outsideMoved ?_ id fun _ => hopen
    rcases hd with ⟨hd, -⟩ | hd <;> rw [hd] <;> exact id
  | close hcloses => exact h.close hcloses (hquiet hcloses)
  | advance phase hd hphase _ hpending hclosed hcount hreleased _ hdestroyer =>
    refine h.advanced _ hd hphase hclosed hcount hdestroyer ?_
    rw [hreleased, hpending]
    exact h.pending d hd
  | broadcastNotFull hd =>
    have hclosing : (s.destroyer d).Closing := hd ▸ trivial
    have hpending := h.pending d hclosing
    rw [hd] at hpending
    exact h.advanced (.join 0) hclosing trivial rfl rfl rfl hpending
  | @release r rest hd =>
    have hclosing : (s.destroyer d).Closing := hd ▸ trivial
    have hpending := h.pending d hclosing
    rw [hd] at hpending
    refine h.advanced (.release rest) hclosing trivial rfl rfl rfl ?_
    rw [List.append_assoc]
    exact hpending

end ClosedOnce

/-! ## A call that waits while another one closes the pool -/

/-- One call tears the pool down, and another one waits or tears it down too. -/
structure ClosedOver (s : State n P D) : Prop where
  closed : s.pool.mPoolIsClose = true
  count : s.pool.mCurQueueJobNum = 0
  calls : ∃ d d', d ≠ d' ∧ (s.destroyer d).Closing ∧
    ((s.destroyer d').InWait ∨ (s.destroyer d').Closing)

namespace ClosedOver

/-- Once the mutex is destroyed, two calls have torn the pool down, or one waits with the mutex. -/
theorem not_tornDownOnce (h : ClosedOver s) (hmutex : .mutex ∈ s.released) : ¬ TornDownOnce s := fun honce => by
  obtain ⟨d, d', hne, hd, hin | hd'⟩ := h.calls
  · exact honce.noWaiter hmutex d' hin
  · exact hne (honce.once d d' hd hd')

/-- Steps of the other threads keep it so. -/
theorem outside (h : ClosedOver s) (hstep : Outside s s') : ClosedOver s' := by
  obtain ⟨d, d', hne, hd, hd'⟩ := h.calls
  refine ⟨hstep.closed ▸ h.closed, (hstep.count h.closed).trans h.count, d, d', hne, ?_, ?_⟩
  · rwa [hstep.closing_eq (Or.inl hd)]
  · rcases hd' with hin | hd'
    · exact Or.inl ((hstep.inWait_iff d').mpr hin)
    · exact Or.inr (by rwa [hstep.closing_eq (Or.inl hd')])

variable [DecidableEq D] {d : D}

/-- A call moves, into the teardown if it waited, and not out of it. -/
theorem moved (h : ClosedOver s) (phase : DestroyPhase) (hclosed : s'.pool.mPoolIsClose = true)
    (hcount : s'.pool.mCurQueueJobNum = 0) (hdestroyer : s'.destroyer = Function.update s.destroyer d phase)
    (hwait : (s.destroyer d).InWait → phase.Closing) (hphase : (s.destroyer d).Closing → phase.Closing) :
    ClosedOver s' := by
  obtain ⟨d₁, d₂, hne, h₁, h₂⟩ := h.calls
  have hclosing : ∀ d', (s.destroyer d').Closing → (s'.destroyer d').Closing := fun d' hd' => by
    rw [hdestroyer]
    by_cases heq : d' = d
    · subst heq
      rw [Function.update_self]
      exact hphase hd'
    · rwa [Function.update_of_ne heq]
  refine ⟨hclosed, hcount, d₁, d₂, hne, hclosing d₁ h₁, ?_⟩
  rcases h₂ with hin | h₂
  · rw [hdestroyer]
    by_cases heq : d₂ = d
    · subst heq
      rw [Function.update_self]
      exact Or.inr (hwait hin)
    · rw [Function.update_of_ne heq]
      exact Or.inl hin
  · exact Or.inr (hclosing d₂ h₂)

/-- Steps of the calls of `ThreadPool_Destroy` keep it so. -/
theorem own (h : ClosedOver s) (heffect : Teardown s d s') : ClosedOver s' := by
  have hstart : s.destroyer d = .start → (s.destroyer d).InWait ∨ (s.destroyer d).Closing → False := by
    rintro hd (hin | hd')
    · rcases hin with hin | hin <;> rw [hd] at hin <;> contradiction
    · rwa [hd] at hd'
  cases heffect with
  | refuse hd =>
    exact h.moved .refused h.closed h.count rfl (fun hin => (hstart hd (Or.inl hin)).elim)
      fun hd' => (hstart hd (Or.inr hd')).elim
  | wait _ hcount => exact absurd h.count hcount
  | close => exact h.moved .broadcastNotEmpty rfl h.count rfl (fun _ => trivial) fun _ => trivial
  | advance phase hd hphase _ _ hclosed hcount _ _ hdestroyer =>
    exact h.moved _ (hclosed.trans h.closed) (hcount.trans h.count) hdestroyer (fun _ => hphase) fun _ => hphase
  | broadcastNotFull =>
    exact h.moved (.join 0) h.closed h.count rfl (fun _ => trivial) fun _ => trivial
  | @release r rest hd =>
    exact h.moved (.release rest) h.closed h.count rfl (fun _ => trivial) fun _ => trivial

/-- A call that closes the pool while another one waits. -/
theorem of_closes (heffect : Teardown s d s') (hcloses : s.Closes d) {d' : D} (hne : d' ≠ d)
    (hin : (s.destroyer d').InWait) : ClosedOver s' := by
  obtain ⟨hcount, hd⟩ := hcloses
  have houtside : ¬ (s.destroyer d).Closing := by
    rcases hd with ⟨hd, -⟩ | hd <;> rw [hd] <;> exact id
  cases heffect with
  | refuse hstart hclosed =>
    rcases hd with ⟨-, hopen⟩ | hwoken
    · exact absurd hclosed (by simp [hopen])
    · exact absurd (hstart.symm.trans hwoken) (by simp)
  | wait _ hwait => exact absurd hcount hwait
  | close =>
    refine ⟨rfl, hcount, d, d', Ne.symm hne, ?_, Or.inl ?_⟩
    · rw [State.setDestroyer_destroyer, Function.update_self]
      trivial
    · rw [State.setDestroyer_destroyer, Function.update_of_ne hne]
      exact hin
  | advance _ hclosing => exact absurd hclosing houtside
  | broadcastNotFull hsent => exact absurd (hsent ▸ trivial) houtside
  | release hrelease => exact absurd (hrelease ▸ trivial) houtside

end ClosedOver

/-! ## Runs -/

variable [DecidableEq P] [DecidableEq D] {label : Label n P D}

/-- Every step keeps it so, if no call comes too late. -/
theorem ClosedOnce.step (h : ClosedOnce s) (hstep : Step s label s') (hcond : CallsInTime s label) :
    ClosedOnce s' := by
  rcases hstep.teardown_cases with ⟨d, rfl, heffect⟩ | ⟨-, houtside⟩
  · exact h.own heffect hcond.2
  · exact h.outside houtside

/-- Every step keeps it so. -/
theorem ClosedOver.step (h : ClosedOver s) (hstep : Step s label s') : ClosedOver s' := by
  rcases hstep.teardown_cases with ⟨d, rfl, heffect⟩ | ⟨-, houtside⟩
  · exact h.own heffect
  · exact h.outside houtside

/-- With no call waiting, only one that begins acquires the destroyed mutex. -/
theorem ClosedOnce.not_locksDestroyed (h : ClosedOnce s) (hstep : Step s label s')
    (hcond : CallsInTime s label) : ¬ LocksDestroyed s label := by
  intro hlocks
  cases label with
  | destroy d =>
    obtain ⟨hmutex, hstart | hwoken⟩ := hlocks
    · exact hcond.1 hstart hmutex
    · exact h.tornDownOnce.noWaiter hmutex d (Or.inr hwoken)
  | spuriousDestroyer d =>
    have hnext := hstep.2
    rw [State.next] at hnext
    split at hnext
    · next hwaiting => exact h.tornDownOnce.noWaiter hlocks d (Or.inl hwaiting)
    · contradiction
  | _ => exact hlocks

/-- A step that does not meet the condition acquires the destroyed mutex, or no run after it destroys
the mutex without harm. -/
theorem locksDestroyed_or_closedOver (hstep : Step s label s') (hcond : ¬ CallsInTime s label) :
    LocksDestroyed s label ∨ ClosedOver s' := by
  cases label with
  | destroy d =>
    by_cases hlate : s.destroyer d = .start ∧ .mutex ∈ s.released
    · exact Or.inl ⟨hlate.2, Or.inl hlate.1⟩
    · have hwaiter : ¬ (s.Closes d → ∀ d', d' ≠ d → ¬ (s.destroyer d').InWait) := fun hquiet =>
        hcond ⟨fun hstart hmutex => hlate ⟨hstart, hmutex⟩, hquiet⟩
      push Not at hwaiter
      obtain ⟨hcloses, d', hne, hin⟩ := hwaiter
      exact Or.inr (.of_closes (.of_destroy hstep.2) hcloses hne hin)
  | _ => exact absurd trivial hcond

/-- In every run whose calls begin before the mutex is destroyed, and close the pool when no other one
waits, the pool is torn down once, every other call is refused, and none acquires the destroyed mutex.
A step that does not meet the condition acquires it, or leads to runs that tear the pool down with
harm only. -/
theorem tornDownOnce_of_callsInTime {queueMaxNum : ℤ} {quota : P → ℕ}
    (h : Transition.Reachable (· = State.new n D queueMaxNum quota) (Transition.Restrict Step CallsInTime) s) :
    TornDownOnce s ∧
      (s.pool.mPoolIsClose = true →
        ∀ d, s.destroyer d = .start ∨ s.destroyer d = .refused ∨ (s.destroyer d).Closing) ∧
      ∀ label s', Step s label s' →
        (CallsInTime s label → ¬ LocksDestroyed s label) ∧
        (¬ CallsInTime s label → LocksDestroyed s label ∨
          ∀ labels t, Transition.Run Step s' labels t → .mutex ∈ t.released → ¬ TornDownOnce t) := by
  have honce : ClosedOnce s := Transition.Reachable.invariant (P := ClosedOnce)
    (fun s hs => hs ▸ closedOnce_new queueMaxNum quota) (fun s label s' hs hstep => hs.step hstep.1 hstep.2) h
  refine ⟨honce.tornDownOnce, fun hclosed d => ?_,
    fun label s' hstep => ⟨honce.not_locksDestroyed hstep, fun hcond => ?_⟩⟩
  · have hquiet := honce.quiet hclosed d
    cases hd : s.destroyer d with
    | start => exact Or.inl rfl
    | refused => exact Or.inr (Or.inl rfl)
    | waiting => exact absurd (Or.inl hd) hquiet
    | woken => exact absurd (Or.inr hd) hquiet
    | _ => exact Or.inr (Or.inr trivial)
  · refine (locksDestroyed_or_closedOver hstep hcond).imp_right fun hover labels t hrun hmutex => ?_
    exact (hrun.preserves (P := ClosedOver) (fun _ _ _ hs hstep => hs.step hstep) hover).not_tornDownOnce hmutex

/-- A call waits for the one job to be taken and tears the pool down; another one is refused. -/
theorem tornDownOnce_of_callsInTime_refused : ∃ s : State 1 (Fin 1) (Fin 2),
    s.destroyer 0 = .release resources.tail ∧ s.destroyer 1 = .refused ∧ s.released = [.mutex] ∧
      (TornDownOnce s ∧
        (s.pool.mPoolIsClose = true →
          ∀ d, s.destroyer d = .start ∨ s.destroyer d = .refused ∨ (s.destroyer d).Closing) ∧
        ∀ label s', Step s label s' →
          (CallsInTime s label → ¬ LocksDestroyed s label) ∧
          (¬ CallsInTime s label → LocksDestroyed s label ∨
            ∀ labels t, Transition.Run Step s' labels t → .mutex ∈ t.released → ¬ TornDownOnce t)) := by
  let labels : List (Label 1 (Fin 1) (Fin 2)) := [.addJob 0 (some 8), .destroy 0,
    .work 0 (fun d => d = 0), .destroy 0, .invoke 0, .destroy 1, .callbackReturn 0, .freeJob 0,
    .work 0 (fun _ => false), .destroy 0, .destroy 0, .destroy 0, .destroy 0, .destroy 0]
  have hrun : (Transition.replay (Transition.guard CallsInTime fun s label => s.check label)
      (State.new 1 (Fin 2) 1 fun _ => 1) labels).map
        (fun s => (s.destroyer 0, s.destroyer 1, s.released)) =
      some (.release resources.tail, .refused, [.mutex]) := by decide
  obtain ⟨s, hrun, hs⟩ := Option.map_eq_some_iff.mp hrun
  simp only [Prod.mk.injEq] at hs
  obtain ⟨hzero, hone, hreleased⟩ := hs
  exact ⟨s, hzero, hone, hreleased, tornDownOnce_of_callsInTime
    (Transition.Reachable.replay_guard (fun s _ _ => s.step_of_check) (.init rfl) hrun)⟩

/-- The only job has been added before the calls. One call is on its way out of its wait when the other
one finds the queue empty: both close the pool, and both destroy the mutex. -/
theorem mutex_destroyed_twice : ∃ s : State 1 (Fin 1) (Fin 2), Reachable 1 (fun _ => 1) s ∧
    s.released = [.mutex, .mutex] ∧ (s.destroyer 0).Closing ∧ (s.destroyer 1).Closing ∧ ¬ TornDownOnce s := by
  let labels : List (Label 1 (Fin 1) (Fin 2)) := [.addJob 0 (some 8), .destroy 0,
    .work 0 (fun d => d = 0), .destroy 1, .destroy 0, .invoke 0, .callbackReturn 0, .freeJob 0,
    .work 0 (fun _ => false), .destroy 1, .destroy 1, .destroy 1, .destroy 1, .destroy 1,
    .destroy 0, .destroy 0, .destroy 0, .destroy 0, .destroy 0]
  have hrun : (Transition.replay (fun s label => s.check label) (State.new 1 (Fin 2) 1 fun _ => 1) labels).map
      (fun s => (s.destroyer 0, s.destroyer 1, s.released)) =
    some (.release resources.tail, .release resources.tail, [.mutex, .mutex]) := by decide
  obtain ⟨s, hrun, hs⟩ := Option.map_eq_some_iff.mp hrun
  simp only [Prod.mk.injEq] at hs
  obtain ⟨hzero, hone, hreleased⟩ := hs
  have hreach : Reachable 1 (fun _ => 1) s :=
    Transition.Reachable.replay (fun s _ _ => s.step_of_check) (.init rfl) hrun
  refine ⟨s, hreach, hreleased, hzero ▸ trivial, hone ▸ trivial, fun honce => ?_⟩
  exact absurd honce.released (by rw [hreleased]; decide)

end CppProject.ThreadPool
