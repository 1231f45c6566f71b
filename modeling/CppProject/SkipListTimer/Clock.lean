import CppProject.SkipListTimer.Expire

/-!
# Timers and the wrapping clock

The clock is a millisecond counter modulo `2 ^ 32`, and a timer expires at the counter plus its delay,
again modulo `2 ^ 32`. The loop of `expire_timer` compares the stored expiry with the counter itself and
not with the time since then, so a timer fires on time only if the sum does not wrap, or the counter has
wrapped too; and a sum of at least `2 ^ 31` is stored as a score the counter never reaches.
-/

namespace CppProject.SkipListTimer

open Transition

variable {H : Type*} {printfHello : H} {w w' : World H} {x : NodePtr}

/-- An ideal millisecond counter in the place of `getcurrent_time()`. -/
def counter (time : ℕ) : BitVec 32 := BitVec.ofNat 32 time

/-- `Add_timer(mesc, handler)` at a counter value, with the height that `RandomLevel` draws. -/
def addTimer (s : SkipList H) (mesc now : BitVec 32) (newlevel : ℕ) (handler : H) :
    Option (SkipList H × NodePtr) :=
  insertNode s (mesc + now) newlevel handler

/-- A poll at a counter value calls the handler of the timer first. -/
def CalledAt (w : World H) (now : BitVec 32) (x : NodePtr) : Prop :=
  ∃ s, PollStep now (Poll.start w) .fire s ∧ s.running = some x

/-- A timer of a delay `d`, added when the counter is `t`, is in time for a poll `e` milliseconds later:
the sum stays below `2 ^ 31`, or it stays below `2 ^ 32` and the timer is not due, or the sum wraps and
the counter has wrapped. -/
def InTime (t d e : ℕ) : Prop :=
  t % 2 ^ 32 + d < 2 ^ 31 ∨ (t % 2 ^ 32 + d < 2 ^ 32 ∧ e < d) ∨
    (2 ^ 32 ≤ t % 2 ^ 32 + d ∧ 2 ^ 32 ≤ t % 2 ^ 32 + e)

/-- The stored expiry and the counter. -/
theorem due_iff_inTime {t e : ℕ} {mesc : BitVec 32} (hd : mesc.toNat < 2 ^ 31) (he : e < 2 ^ 31) :
    (((mesc + counter t).signExtend 64 ≤ (counter (t + e)).setWidth 64) ↔ mesc.toNat ≤ e) ↔
      InTime t mesc.toNat e := by
  have hnow : (counter (t + e)).toNat = (t + e) % 2 ^ 32 := BitVec.toNat_ofNat _ _
  have hadded : (mesc + counter t).toNat = (mesc.toNat + t % 2 ^ 32) % 2 ^ 32 := by
    rw [BitVec.toNat_add, counter, BitVec.toNat_ofNat]
  rw [BitVec.le_def, toNat_stored, toNat_target, hadded, hnow, InTime]
  split <;> omega

/-- The poll of a list with one timer looks at that timer. -/
theorem OrderInv.calledAt_iff {order : List NodePtr} (h : OrderInv w order) {now : BitVec 32}
    (honly : w.live.map Prod.fst = [x]) : CalledAt w now x ↔ score w.list.heap x ≤ now.setWidth 64 := by
  obtain rfl : order = [x] := List.perm_singleton.mp (honly ▸ h.tracks.perm.symm)
  have hscore : getScore w.list.heap x = some (score w.list.heap x) :=
    getScore_eq (h.tracks.isSome (by simp [honly]))
  have hfire : (Poll.start w).fire now = if score w.list.heap x > now.setWidth 64 then none
      else some { Poll.start w with running := some x, invoked := [x] } := by
    simp [Poll.fire, Poll.start, h.tracks.represents.getMinNode_eq, hscore]
  have hidle : (Poll.start w).running = none := rfl
  rw [← BitVec.not_lt]
  constructor
  · rintro ⟨s, ⟨-, hnext⟩, -⟩ hlt
    rw [Poll.next, if_pos hidle, hfire, if_pos hlt] at hnext
    contradiction
  · intro hle
    refine ⟨{ Poll.start w with running := some x, invoked := [x] }, ⟨trivial, ?_⟩, rfl⟩
    rw [Poll.next, if_pos hidle, hfire, if_neg hle]

/-- A timer keeps its score as long as it is in the list. -/
theorem Run.score_eq {calls : List (Call H)} {stored : BitVec 64} (h : Reachable printfHello w)
    (hrun : Transition.Run Step w calls w') (hold : x < w.list.fresh) (hscore : score w.list.heap x = stored)
    (hlive : x ∈ w'.live.map Prod.fst) : score w'.list.heap x = stored := by
  have hkept : ∀ w call w', (Reachable printfHello w ∧ x < w.list.fresh ∧
      (x ∈ w.live.map Prod.fst → score w.list.heap x = stored)) → Step w call w' →
      Reachable printfHello w' ∧ x < w'.list.fresh ∧
        (x ∈ w'.live.map Prod.fst → score w'.list.heap x = stored) := by
    intro w call w' ⟨hreach, hold, hscore⟩ hstep
    obtain ⟨order, hinv⟩ := hreach.orderInv
    refine ⟨hreach.step hstep, ?_⟩
    cases call with
    | insert score newlevel handler =>
      obtain ⟨hfresh, hlive, -, hsame⟩ := hinv.insert_spec hstep
      refine ⟨hfresh ▸ hold.trans (Nat.lt_succ_self _), fun hx => ?_⟩
      rw [hlive, List.map_cons, List.mem_cons] at hx
      have hx := hx.resolve_left hold.ne
      rw [hsame x hx, hscore hx]
    | _ =>
      have hshrinks := hinv.shrinks hstep (by simp)
      refine ⟨hshrinks.fresh ▸ hold, fun hx => ?_⟩
      rw [hshrinks.score x hx, hscore (List.map_subset _ hshrinks.live hx)]
  exact (Transition.Run.preserves hkept ⟨h, hold, fun _ => hscore⟩ hrun).2.2 hlive

/-- A poll of a list that holds only an added timer compares its wrapped expiry with the counter. -/
theorem addTimer_calledAt {s' : SkipList H} {mesc added now : BitVec 32} {newlevel : ℕ} {handler : H}
    {calls : List (Call H)} (h : Reachable printfHello w)
    (hlevel : 1 ≤ newlevel ∧ newlevel ≤ skiplistMaxlevel)
    (hadd : addTimer w.list mesc added newlevel handler = some (s', x))
    (hrun : Transition.Run Step ⟨s', (x, newlevel) :: w.live⟩ calls w')
    (honly : w'.live.map Prod.fst = [x]) :
    CalledAt w' now x ↔ (mesc + added).signExtend 64 ≤ now.setWidth 64 := by
  have hstep : Step w (.insert (mesc + added) newlevel handler) ⟨s', (x, newlevel) :: w.live⟩ := by
    refine ⟨hlevel, ?_⟩
    rw [Call.exec, ← addTimer, hadd]
    rfl
  obtain ⟨order, hinv⟩ := h.orderInv
  obtain ⟨hfresh, hlive, hstored, -⟩ := hinv.insert_spec hstep
  obtain rfl : x = w.list.fresh := (Prod.mk.inj (List.cons.inj hlive).1).1
  have hfinal : score w'.list.heap w.list.fresh = (mesc + added).signExtend 64 :=
    Run.score_eq (h.step hstep) hrun (hfresh ▸ Nat.lt_succ_self _) hstored (by simp [honly])
  have hreach : Reachable printfHello w' :=
    hrun.preserves (P := Reachable printfHello) (fun _ _ _ hw hstep => hw.step hstep) (h.step hstep)
  obtain ⟨order', hinv'⟩ := hreach.orderInv
  rw [hinv'.calledAt_iff honly, hfinal]

/-- A timer is called at a poll, when the list holds only that timer, exactly when it is due, if and only
if it is in time for that poll. -/
theorem calledAt_due_iff_inTime {s' : SkipList H} {mesc : BitVec 32} {t e newlevel : ℕ} {handler : H}
    {calls : List (Call H)} (h : Reachable printfHello w)
    (hlevel : 1 ≤ newlevel ∧ newlevel ≤ skiplistMaxlevel)
    (hadd : addTimer w.list mesc (counter t) newlevel handler = some (s', x))
    (hd : mesc.toNat < 2 ^ 31) (he : e < 2 ^ 31)
    (hrun : Transition.Run Step ⟨s', (x, newlevel) :: w.live⟩ calls w')
    (honly : w'.live.map Prod.fst = [x]) :
    (CalledAt w' (counter (t + e)) x ↔ mesc.toNat ≤ e) ↔ InTime t mesc.toNat e := by
  rw [addTimer_calledAt h hlevel hadd hrun honly]
  exact due_iff_inTime hd he

/-- A timer of five milliseconds, added to the empty list, is in time for the poll after seven. -/
theorem calledAt_due_iff_inTime_empty : ∃ s',
    addTimer (SkipList.new ()) 5 (counter 1000) 1 () = some (s', 1) ∧
      ((CalledAt ⟨s', [(1, 1)]⟩ (counter (1000 + 7)) 1 ↔ (5 : BitVec 32).toNat ≤ 7) ↔
        InTime 1000 (5 : BitVec 32).toNat 7) := by
  have hadd : (addTimer (SkipList.new ()) 5 (counter 1000) 1 ()).map Prod.snd = some 1 := by decide
  obtain ⟨⟨s', x⟩, hadd, rfl⟩ := Option.map_eq_some_iff.mp hadd
  exact ⟨s', hadd, calledAt_due_iff_inTime (.init rfl) (by decide) hadd (by decide) (by decide) .nil rfl⟩

/-- A timer whose expiry passes `2 ^ 31` is not called when it is long due, and one whose expiry wraps is
called at once. -/
theorem called_late_and_early :
    (∃ s', addTimer (SkipList.new ()) 20 (counter (2 ^ 31 - 10)) 1 () = some (s', 1) ∧
      ¬ (CalledAt ⟨s', [(1, 1)]⟩ (counter (2 ^ 31 - 10 + 100)) 1 ↔ (20 : BitVec 32).toNat ≤ 100)) ∧
    ∃ s', addTimer (SkipList.new ()) 1000 (counter (2 ^ 32 - 10)) 1 () = some (s', 1) ∧
      ¬ (CalledAt ⟨s', [(1, 1)]⟩ (counter (2 ^ 32 - 10 + 0)) 1 ↔ (1000 : BitVec 32).toNat ≤ 0) := by
  have hlate : (addTimer (SkipList.new ()) 20 (counter (2 ^ 31 - 10)) 1 ()).map Prod.snd = some 1 := by
    decide
  have hearly : (addTimer (SkipList.new ()) 1000 (counter (2 ^ 32 - 10)) 1 ()).map Prod.snd = some 1 := by
    decide
  obtain ⟨⟨late, x⟩, hlate, rfl⟩ := Option.map_eq_some_iff.mp hlate
  obtain ⟨⟨early, x⟩, hearly, rfl⟩ := Option.map_eq_some_iff.mp hearly
  refine ⟨⟨late, hlate, fun hiff => ?_⟩, early, hearly, fun hiff => ?_⟩
  · have hle := (addTimer_calledAt (.init rfl) (by decide) hlate .nil rfl).mp (hiff.mpr (by decide))
    exact absurd hle (by decide)
  · have hdue : 1000 ≤ 0 :=
      hiff.mp ((addTimer_calledAt (.init rfl) (by decide) hearly .nil rfl).mpr (by decide))
    contradiction

end CppProject.SkipListTimer
