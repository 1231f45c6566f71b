import CppProject.SkipListTimer.Layers

/-!
# The loop of `expire_timer`

One poll as a transition system: the loop takes the first node, and calls its handler if its score is
not above `now`; while the handler runs it may insert timers and cancel them; when it has returned the
loop removes whatever is first then. That is the timer that has fired only if the handler left it
first: a timer that the handler has inserted with the same score, or a smaller one, goes in front of
it and is removed in its place, and the timer that has fired fires again.
-/

namespace CppProject.SkipListTimer

open PointerChain Transition

variable {H : Type*}

/-- The list during a poll, the timer whose handler runs, and what has happened: the timers whose
handlers have been called, those passed to `Del_timer`, and those that have been in the list. -/
structure Poll (H : Type*) where
  world : World H
  running : Option NodePtr
  invoked : List NodePtr
  passed : List NodePtr
  seen : List NodePtr

/-- A poll that begins. -/
def Poll.start (w : World H) : Poll H := ⟨w, none, [], [], w.live.map Prod.fst⟩

/-- The loop calls a handler, the handler changes the list, or it returns. -/
inductive PollLabel (H : Type*)
  | fire
  | insert (score : BitVec 32) (newlevel : ℕ) (handler : H)
  | delTimer (snode : NodePtr)
  | handlerReturn

/-- `x = GetMinNode(); if (!x) break; if (x->GetScore() > now) break; x->m_handle(x)`. -/
def Poll.fire (now : BitVec 32) (s : Poll H) : Option (Poll H) :=
  (getMinNode s.world.list).bind fun first => first.bind fun x =>
    (getScore s.world.list.heap x).bind fun score =>
      if score > now.setWidth 64 then none
      else some { s with running := some x, invoked := s.invoked ++ [x] }

/-- The poll after a step, if it is at that point. -/
def Poll.next (now : BitVec 32) (s : Poll H) : PollLabel H → Option (Poll H)
  | .fire => if s.running = none then s.fire now else none
  | .insert score newlevel handler =>
    if s.running = none then none
    else (Call.exec s.world (.insert score newlevel handler)).map fun world =>
      { s with world := world, seen := s.world.list.fresh :: s.seen }
  | .delTimer snode =>
    if s.running = none then none
    else (Call.exec s.world (.del snode)).map fun world =>
      { s with world := world, passed := snode :: s.passed }
  | .handlerReturn =>
    if s.running = none then none
    else (Call.exec s.world .delHead).map fun world => { s with world := world, running := none }

/-- What a handler may do: insert a small score, or cancel a live timer that has its score alone. -/
def PollLabel.Valid (s : Poll H) : PollLabel H → Prop
  | .insert score newlevel handler =>
    score.toNat < 2 ^ 31 ∧ (Call.insert score newlevel handler).Valid s.world
  | .delTimer snode => (Call.del snode : Call H).Valid s.world ∧
      ∀ q ∈ s.world.live.map Prod.fst, score s.world.list.heap q = score s.world.list.heap snode → q = snode
  | _ => True

instance PollLabel.decidableValid (s : Poll H) : (label : PollLabel H) → Decidable (label.Valid s)
  | .fire => inferInstanceAs (Decidable True)
  | .insert _ _ _ => inferInstanceAs (Decidable (_ ∧ _))
  | .delTimer snode => inferInstanceAs (Decidable ((Call.del snode : Call H).Valid s.world ∧
      ∀ q ∈ s.world.live.map Prod.fst, score s.world.list.heap q = score s.world.list.heap snode → q = snode))
  | .handlerReturn => inferInstanceAs (Decidable True)

/-- One step of a poll at a given time. -/
def PollStep (now : BitVec 32) (s : Poll H) (label : PollLabel H) (s' : Poll H) : Prop :=
  label.Valid s ∧ s.next now label = some s'

/-- A poll of any reachable list. -/
def PollStart (printfHello : H) (s : Poll H) : Prop := ∃ w, Reachable printfHello w ∧ s = Poll.start w

/-- Take a step after checking that it is valid. -/
def Poll.check (now : BitVec 32) (s : Poll H) (label : PollLabel H) : Option (Poll H) :=
  if label.Valid s then s.next now label else none

/-- A checked step is a step. -/
theorem Poll.step_of_check {now : BitVec 32} {s s' : Poll H} {label : PollLabel H}
    (h : s.check now label = some s') : PollStep now s label s' := by
  rw [Poll.check] at h
  exact Option.ite_none_right_eq_some.mp h

/-- No handler is called twice, and a timer that is gone has fired or was passed to `Del_timer`. -/
structure FiresOnce (s : Poll H) : Prop where
  once : s.invoked.Nodup
  gone : ∀ p ∈ s.seen, p ∉ s.world.live.map Prod.fst → p ∈ s.invoked ∨ p ∈ s.passed

/-- When the handler returns, no timer is left, or the one that has fired is the newest live one with
the least score. -/
def LeavesFirst (s : Poll H) : PollLabel H → Prop
  | .handlerReturn => s.world.live = [] ∨ ∀ x ∈ s.running, newestTie s.world x = some x ∧
      ∀ q ∈ s.world.live.map Prod.fst, score s.world.list.heap x ≤ score s.world.list.heap q
  | _ => True

instance LeavesFirst.decidable (s : Poll H) : (label : PollLabel H) → Decidable (LeavesFirst s label)
  | .fire => inferInstanceAs (Decidable True)
  | .insert _ _ _ => inferInstanceAs (Decidable True)
  | .delTimer _ => inferInstanceAs (Decidable True)
  | .handlerReturn => inferInstanceAs (Decidable (_ ∨ ∀ x ∈ s.running, newestTie s.world x = some x ∧ _))

/-! ## The invariant of a poll -/

/-- What is known during a poll: a timer that has fired and is still in the list is the one whose handler
runs, and a timer that has been cancelled and is still in the list has a large score. -/
structure PollInv (printfHello : H) (s : Poll H) : Prop where
  reach : Reachable printfHello s.world
  known : s.world.live.map Prod.fst ⊆ s.seen
  old : ∀ p ∈ s.seen, p < s.world.list.fresh
  invokedSeen : s.invoked ⊆ s.seen
  passedSeen : s.passed ⊆ s.seen
  running : ∀ x, s.running = some x → x ∈ s.invoked
  pending : ∀ p ∈ s.invoked, p ∈ s.world.live.map Prod.fst → s.running = some p ∧ Small s.world.list.heap p
  large : ∀ p ∈ s.passed, p ∈ s.world.live.map Prod.fst → ¬ Small s.world.list.heap p
  fires : FiresOnce s

variable {printfHello : H} {now : BitVec 32} {s s' : Poll H} {label : PollLabel H}

/-- A poll begins with no handler called. -/
theorem pollInv_start {w : World H} (h : Reachable printfHello w) : PollInv printfHello (Poll.start w) where
  reach := h
  known := List.Subset.refl _
  old := fun p hp => by
    obtain ⟨order, hinv⟩ := h.orderInv
    exact hinv.tracks.represents.fresh p (hinv.tracks.isSome hp)
  invokedSeen := List.nil_subset _
  passedSeen := List.nil_subset _
  running := fun x hx => by contradiction
  pending := fun p hp => by contradiction
  large := fun p hp => by contradiction
  fires := ⟨List.nodup_nil, fun p hp hgone => absurd hp hgone⟩

/-- The loop calls the handler of the first timer, whose score is small. -/
theorem Poll.fire_spec {order : List NodePtr} (h : OrderInv s.world order) (hfire : s.fire now = some s') :
    ∃ x, order.head? = some x ∧ Small s.world.list.heap x ∧
      s' = { s with running := some x, invoked := s.invoked ++ [x] } := by
  rw [Poll.fire, h.tracks.represents.getMinNode_eq, Option.bind_some] at hfire
  obtain ⟨x, hx, hfire⟩ := Option.bind_eq_some_iff.mp hfire
  rw [getScore_eq (h.tracks.isSome (h.front_live hx)), Option.bind_some] at hfire
  split at hfire
  · contradiction
  · next hscore =>
    refine ⟨x, hx, ?_, (Option.some.inj hfire).symm⟩
    by_contra hlarge
    have hle := h.stored.le_of_not_small (List.mem_of_head? hx) hlarge
    have htarget := toNat_target now
    have hnow := now.isLt
    rw [gt_iff_lt, BitVec.lt_def] at hscore
    omega

namespace PollInv

/-- A timer in the list keeps its score when the list shrinks. -/
theorem small_iff {w' : World H} (hshrinks : Shrinks s.world w') {p : NodePtr}
    (hp : p ∈ w'.live.map Prod.fst) : Small w'.list.heap p ↔ Small s.world.list.heap p := by
  rw [Small, Small, hshrinks.score p hp]

/-- The loop calls a handler. -/
theorem fire (h : PollInv printfHello s) (hidle : s.running = none) (hfire : s.fire now = some s') :
    PollInv printfHello s' := by
  obtain ⟨order, hinv⟩ := h.reach.orderInv
  obtain ⟨x, hx, hsmall, rfl⟩ := Poll.fire_spec hinv hfire
  have hlive := hinv.front_live hx
  have hnew : ∀ p ∈ s.invoked, p ∉ s.world.live.map Prod.fst := fun p hp hmem => by
    have hrunning := (h.pending p hp hmem).1
    rw [hidle] at hrunning
    contradiction
  refine ⟨h.reach, h.known, h.old, List.append_subset.mpr ⟨h.invokedSeen, ?_⟩, h.passedSeen,
    fun y hy => ?_, fun p hp hmem => ?_, h.large, ?_, fun p hp hgone => ?_⟩
  · exact List.cons_subset.mpr ⟨h.known hlive, List.nil_subset _⟩
  · exact List.mem_append_right _ (List.mem_singleton.mpr (Option.some.inj hy).symm)
  · rcases List.mem_append.mp hp with hp | hp
    · exact absurd hmem (hnew p hp)
    · obtain rfl := List.mem_singleton.mp hp
      exact ⟨rfl, hsmall⟩
  · rw [List.nodup_append_comm]
    exact List.nodup_cons.mpr ⟨fun hmem => hnew x hmem hlive, h.fires.once⟩
  · exact (h.fires.gone p hp hgone).imp_left (List.mem_append_left _)

/-- The handler adds a timer. -/
theorem insert (h : PollInv printfHello s) {score : BitVec 32} {newlevel : ℕ} {handler : H} {w' : World H}
    (hstep : Step s.world (.insert score newlevel handler) w') :
    PollInv printfHello { s with world := w', seen := s.world.list.fresh :: s.seen } := by
  obtain ⟨order, hinv⟩ := h.reach.orderInv
  obtain ⟨hfresh, hlive, -, hscore⟩ := hinv.insert_spec hstep
  have hmem : ∀ {p}, p ∈ w'.live.map Prod.fst ↔ p = s.world.list.fresh ∨ p ∈ s.world.live.map Prod.fst := by
    intro p
    rw [hlive, List.map_cons, List.mem_cons]
  -- a timer seen before is in the list afterwards only if it was before, with its score
  have hbefore : ∀ p ∈ s.seen, p ∈ w'.live.map Prod.fst →
      p ∈ s.world.live.map Prod.fst ∧ (Small w'.list.heap p ↔ Small s.world.list.heap p) := fun p hp hp' => by
    have hp'' := (hmem.mp hp').resolve_left (h.old p hp).ne
    exact ⟨hp'', by rw [Small, Small, hscore p hp'']⟩
  refine ⟨h.reach.step hstep, fun p hp => ?_, fun p hp => ?_, List.subset_cons_of_subset _ h.invokedSeen,
    List.subset_cons_of_subset _ h.passedSeen, h.running, fun p hp hp' => ?_, fun p hp hp' => ?_, h.fires.once,
    fun p hp hgone => ?_⟩
  · exact List.mem_cons.mpr ((hmem.mp hp).imp_right fun hp => h.known hp)
  · change p < w'.list.fresh
    rw [hfresh]
    rcases List.mem_cons.mp hp with rfl | hp
    · exact Nat.lt_succ_self _
    · exact (h.old p hp).trans (Nat.lt_succ_self _)
  · obtain ⟨hp', hsmall⟩ := hbefore p (h.invokedSeen hp) hp'
    obtain ⟨hrunning, hpsmall⟩ := h.pending p hp hp'
    exact ⟨hrunning, hsmall.mpr hpsmall⟩
  · obtain ⟨hp', hsmall⟩ := hbefore p (h.passedSeen hp) hp'
    exact mt hsmall.mp (h.large p hp hp')
  · have hgone : p ∉ w'.live.map Prod.fst := hgone
    rw [hmem, not_or] at hgone
    exact h.fires.gone p ((List.mem_cons.mp hp).resolve_left hgone.1) hgone.2

/-- A deletion during a poll, with the timers that account for it. -/
theorem shrink (h : PollInv printfHello s) {call : Call H} {w' : World H} (hstep : Step s.world call w')
    (hshrinks : Shrinks s.world w') {running : Option NodePtr} {passed : List NodePtr}
    (hrunning : ∀ x, running = some x → s.running = some x)
    (hpending : ∀ p, s.running = some p → p ∈ w'.live.map Prod.fst → running = some p)
    (hpassed : ∀ p ∈ passed, p ∈ s.passed ∨
      p ∈ s.world.live.map Prod.fst ∧ (p ∈ w'.live.map Prod.fst → ¬ Small s.world.list.heap p))
    (hgone : ∀ p ∈ s.seen, p ∉ w'.live.map Prod.fst → p ∈ s.invoked ∨ p ∈ passed) :
    PollInv printfHello { s with world := w', running := running, passed := passed } where
  reach := h.reach.step hstep
  known := List.Subset.trans (List.map_subset _ hshrinks.live) h.known
  old := fun p hp => hshrinks.fresh ▸ h.old p hp
  invokedSeen := h.invokedSeen
  passedSeen := fun p hp => (hpassed p hp).elim (fun hp => h.passedSeen hp) fun hp => h.known hp.1
  running := fun x hx => h.running x (hrunning x hx)
  pending := fun p hp hp' => by
    obtain ⟨hrun, hsmall⟩ := h.pending p hp (List.map_subset _ hshrinks.live hp')
    exact ⟨hpending p hrun hp', (small_iff hshrinks hp').mpr hsmall⟩
  large := fun p hp hp' => by
    rw [small_iff hshrinks hp']
    rcases hpassed p hp with hp | hp
    · exact h.large p hp (List.map_subset _ hshrinks.live hp')
    · exact hp.2 hp'
  fires := ⟨h.fires.once, hgone⟩

/-- A handler cancels a timer that has its score alone. -/
theorem delTimer (h : PollInv printfHello s) {snode : NodePtr} {w' : World H}
    (hstep : Step s.world (.del snode) w')
    (halone : ∀ q ∈ s.world.live.map Prod.fst,
      score s.world.list.heap q = score s.world.list.heap snode → q = snode) :
    PollInv printfHello { s with world := w', passed := snode :: s.passed } := by
  obtain ⟨order, hinv⟩ := h.reach.orderInv
  have hlive : snode ∈ s.world.live.map Prod.fst := hstep.1
  have hcases : (w' = s.world ∧ ¬ Small s.world.list.heap snode) ∨ w'.live = dropRemoved (some snode) s.world.live := by
    rcases hinv.del_cases hstep with heq | ⟨d, hd, hscore, hdropped⟩
    · exact Or.inl ⟨heq, fun hsmall => hinv.del_ne_of_small hsmall hstep heq⟩
    · exact Or.inr (halone d hd hscore ▸ hdropped)
  refine h.shrink hstep (hinv.shrinks hstep (by simp)) (fun _ => id) (fun _ hp _ => hp) (fun p hp => ?_)
    fun p hp hgone => ?_
  · rcases List.mem_cons.mp hp with rfl | hp
    · refine Or.inr ⟨hlive, fun hstays => ?_⟩
      rcases hcases with ⟨-, hlarge⟩ | hdropped
      · exact hlarge
      · rw [hdropped, mem_map_dropRemoved] at hstays
        exact absurd rfl hstays.2
    · exact Or.inl hp
  · by_cases hlive : p ∈ s.world.live.map Prod.fst
    · refine Or.inr (List.mem_cons.mpr (Or.inl ?_))
      rcases hcases with ⟨rfl, -⟩ | hdropped
      · exact absurd hlive hgone
      · rw [hdropped, mem_map_dropRemoved, not_and_not_right] at hgone
        exact hgone hlive
    · exact (h.fires.gone p hp hlive).imp_right (List.mem_cons_of_mem _)

/-- The loop removes the timer that has fired, or finds no timer. -/
theorem handlerReturn (h : PollInv printfHello s) {w' : World H} (hstep : Step s.world .delHead w')
    {x : NodePtr} (hx : s.running = some x) (hcond : LeavesFirst s .handlerReturn) :
    PollInv printfHello { s with world := w', running := none } := by
  obtain ⟨order, hinv⟩ := h.reach.orderInv
  have hgone : ∀ p ∈ s.world.live.map Prod.fst, p ∉ w'.live.map Prod.fst ↔ p = x := by
    intro p hp
    rcases hcond with hnil | hfirst
    · rw [hnil] at hp
      exact absurd hp List.not_mem_nil
    · obtain ⟨hnewest, hleast⟩ := hfirst x hx
      have hxlive : x ∈ s.world.live.map Prod.fst := List.mem_of_find?_eq_some hnewest
      have hsmall := (h.pending x (h.running x hx) hxlive).2
      obtain ⟨first, hhead⟩ := hinv.exists_front hxlive
      obtain rfl := (hinv.front_eq_iff hhead hxlive hsmall).mpr ⟨hnewest, hleast⟩
      rw [hinv.delHead_small hhead hsmall hstep, mem_map_dropRemoved, not_and_not_right]
      exact ⟨fun himp => himp hp, fun heq _ => heq⟩
  refine h.shrink hstep (hinv.shrinks hstep (by simp)) (fun _ hy => by contradiction) (fun p hp hstays => ?_)
    (fun p hp => Or.inl hp) fun p hp hgone' => ?_
  · have hlive := List.map_subset _ (hinv.shrinks hstep (by simp)).live hstays
    obtain rfl := Option.some.inj (hx.symm.trans hp)
    exact absurd hstays ((hgone x hlive).mpr rfl)
  · by_cases hlive : p ∈ s.world.live.map Prod.fst
    · exact Or.inl ((hgone p hlive).mp hgone' ▸ h.running x hx)
    · exact h.fires.gone p hp hlive

/-- Every step keeps the invariant, if the handler leaves the first timer. -/
theorem step (h : PollInv printfHello s) (hstep : PollStep now s label s') (hcond : LeavesFirst s label) :
    PollInv printfHello s' := by
  obtain ⟨hvalid, hnext⟩ := hstep
  cases label with
  | fire =>
    obtain ⟨hidle, hfire⟩ := Option.ite_none_right_eq_some.mp hnext
    exact h.fire hidle hfire
  | insert score newlevel handler =>
    obtain ⟨-, hexec⟩ := Option.ite_none_left_eq_some.mp hnext
    obtain ⟨w', hw', rfl⟩ := Option.map_eq_some_iff.mp hexec
    exact h.insert ⟨hvalid.2, hw'⟩
  | delTimer snode =>
    obtain ⟨-, hexec⟩ := Option.ite_none_left_eq_some.mp hnext
    obtain ⟨w', hw', rfl⟩ := Option.map_eq_some_iff.mp hexec
    exact h.delTimer ⟨hvalid.1, hw'⟩ hvalid.2
  | handlerReturn =>
    obtain ⟨hrunning, hexec⟩ := Option.ite_none_left_eq_some.mp hnext
    obtain ⟨w', hw', rfl⟩ := Option.map_eq_some_iff.mp hexec
    obtain ⟨x, hx⟩ := Option.ne_none_iff_exists'.mp hrunning
    exact h.handlerReturn ⟨trivial, hw'⟩ hx hcond

/-- When a handler returns and a small timer is left, the loop removes the first one: if that has not
fired, it is gone without a reason. -/
theorem leavesFirst_of_firesOnce (h : PollInv printfHello s) (hstep : PollStep now s .handlerReturn s')
    {q : NodePtr} (hq : q ∈ s.world.live.map Prod.fst) (hqsmall : Small s.world.list.heap q)
    (hfires : FiresOnce s') : LeavesFirst s .handlerReturn := by
  obtain ⟨-, hexec⟩ := Option.ite_none_left_eq_some.mp hstep.2
  obtain ⟨w', hw', rfl⟩ := Option.map_eq_some_iff.mp hexec
  obtain ⟨order, hinv⟩ := h.reach.orderInv
  obtain ⟨first, hfirst⟩ := hinv.exists_front hq
  have hlive := hinv.front_live hfirst
  have hsmall : Small s.world.list.heap first := by
    have hle := hinv.front_le hfirst hq hqsmall
    rw [BitVec.le_def] at hle
    exact lt_of_le_of_lt hle hqsmall
  have hgone : first ∉ w'.live.map Prod.fst := by
    rw [hinv.delHead_small hfirst hsmall ⟨trivial, hw'⟩, mem_map_dropRemoved]
    exact fun hmem => hmem.2 rfl
  rcases hfires.gone first (h.known hlive) hgone with hinvoked | hpassed
  · refine Or.inr fun x hx => ?_
    obtain rfl := Option.some.inj ((h.pending first hinvoked hlive).1.symm.trans hx)
    exact (hinv.front_eq_iff hfirst hlive hsmall).mp rfl
  · exact absurd hsmall (h.large first hpassed hlive)

end PollInv

/-- In every poll whose handlers leave the timer that has fired first, or no timer at all, no handler is
called twice and no timer goes without having fired or been cancelled. A return that leaves it
otherwise, with a small timer in the list, ends this. -/
theorem firesOnce_of_leavesFirst
    (h : Transition.Reachable (PollStart printfHello) (Restrict (PollStep now) LeavesFirst) s) :
    FiresOnce s ∧ ∀ label s', PollStep now s label s' →
      (∃ q ∈ s.world.live.map Prod.fst, Small s.world.list.heap q) →
      (FiresOnce s' ↔ LeavesFirst s label) := by
  have hinv : PollInv printfHello s := Transition.Reachable.invariant (P := PollInv printfHello)
    (fun s ⟨w, hw, hs⟩ => hs ▸ pollInv_start hw) (fun s label s' hs hstep => hs.step hstep.1 hstep.2) h
  refine ⟨hinv.fires, fun label s' hstep ⟨q, hq, hqsmall⟩ =>
    ⟨fun hfires => ?_, fun hcond => (hinv.step hstep hcond).fires⟩⟩
  cases label with
  | handlerReturn => exact hinv.leavesFirst_of_firesOnce hstep hq hqsmall hfires
  | _ => trivial

/-- The handler inserts a later timer and cancels another one; both handlers are called. -/
theorem firesOnce_of_leavesFirst_run : ∃ s : Poll Unit, s.invoked = [1, 3] ∧ s.passed = [2] ∧
    s.world.live.map Prod.fst = [4] ∧
      (FiresOnce s ∧ ∀ label s', PollStep 20 s label s' →
        (∃ q ∈ s.world.live.map Prod.fst, Small s.world.list.heap q) →
        (FiresOnce s' ↔ LeavesFirst s label)) := by
  have hrun : ((runCalls () [.insert 5 1 (), .insert 9 2 (), .insert 8 1 ()]).bind fun w =>
      (replay (guard LeavesFirst fun s label => s.check 20 label) (Poll.start w)
        [.fire, .insert 30 1 (), .delTimer 2, .handlerReturn, .fire, .handlerReturn]).map
      fun s => (s.invoked, s.passed, s.world.live.map Prod.fst)) = some ([1, 3], [2], [4]) := by decide
  obtain ⟨w, hw, hrun⟩ := Option.bind_eq_some_iff.mp hrun
  obtain ⟨s, hrun, hs⟩ := Option.map_eq_some_iff.mp hrun
  simp only [Prod.mk.injEq] at hs
  obtain ⟨hinvoked, hpassed, hlive⟩ := hs
  have hstart : PollStart () (Poll.start w) := ⟨w, reachable_of_runCalls hw, rfl⟩
  exact ⟨s, hinvoked, hpassed, hlive, firesOnce_of_leavesFirst
    (Transition.Reachable.replay_guard (fun s _ _ => Poll.step_of_check) (.init hstart) hrun)⟩

/-- The handler arms a new timer for the time it was due itself. The new timer is removed without having
fired, and the old one fires again. -/
theorem rearmed_timer_lost : ∃ s : Poll Unit,
    Transition.Reachable (PollStart ()) (PollStep 10) s ∧ s.invoked = [1, 1] ∧ 2 ∈ s.seen ∧
      s.world.live.map Prod.fst = [1] ∧ s.passed = [] ∧ ¬ FiresOnce s := by
  have hrun : ((runCalls () [.insert 5 1 ()]).bind fun w =>
      (replay (fun s label => s.check 10 label) (Poll.start w)
        [.fire, .insert 5 1 (), .handlerReturn, .fire]).map
      fun s => (s.invoked, s.seen, s.world.live.map Prod.fst, s.passed)) =
        some ([1, 1], [2, 1], [1], []) := by decide
  obtain ⟨w, hw, hrun⟩ := Option.bind_eq_some_iff.mp hrun
  obtain ⟨s, hrun, hs⟩ := Option.map_eq_some_iff.mp hrun
  simp only [Prod.mk.injEq] at hs
  obtain ⟨hinvoked, hseen, hlive, hpassed⟩ := hs
  have hstart : PollStart () (Poll.start w) := ⟨w, reachable_of_runCalls hw, rfl⟩
  refine ⟨s, Transition.Reachable.replay (fun s _ _ => Poll.step_of_check) (.init hstart) hrun, hinvoked,
    by simp [hseen], hlive, hpassed, fun hfires => ?_⟩
  exact absurd hfires.once (by rw [hinvoked]; decide)

end CppProject.SkipListTimer
