import CppProject.SkipListTimer.Clock
import CppProject.SkipListTimer.PlainList
import CppProject.Lib.Simulation
import CppProject.Lib.TimerQueue

/-!
# The timers over a whole run

A program adds timers, cancels timers and polls, in any order and at any readings of the clock, with handlers that
leave the list alone. Whatever heights are drawn and whatever scores are requested, the list behaves as a queue of
timers: each timer is fired once, by the first poll that reads a clock not below its stored score, unless a deletion
of its score has taken it first. If the clock does not go back and no sum in `Add_timer` wraps, all handlers are called
in the order of the scores.
-/

namespace CppProject.SkipListTimer

open PointerChain Transition

variable {H : Type*} {printfHello : H} {w w' : World H} {order A B : List NodePtr} {now : BitVec 32}

/-- A timer as its caller knows it: the node and the handler. -/
abbrev TimerId (H : Type*) := NodePtr × H

/-- What a call does: it adds a timer with the requested score, it deletes a node, or it reads the clock and calls
handlers, each with the score of its node. -/
inductive Happening (H : Type*)
  | added (timer : TimerId H) (requested : BitVec 32)
  | deleted (node : NodePtr)
  | polled (now : BitVec 32) (called : List (TimerId H × BitVec 64))

namespace Happening

/-- The handlers called, each with the time of the poll. -/
@[simp] def called : Happening H → List ((TimerId H × BitVec 64) × BitVec 32)
  | added _ _ => []
  | deleted _ => []
  | polled now called => called.map fun c => (c, now)

/-- The node deleted. -/
@[simp] def deleted? : Happening H → Option NodePtr
  | added _ _ => none
  | deleted node => some node
  | polled _ _ => none

/-- The time of the poll. -/
@[simp] def now? : Happening H → Option (BitVec 32)
  | added _ _ => none
  | deleted _ => none
  | polled now _ => some now

end Happening

/-- The list of a program with what has happened, oldest first. -/
structure Timers (H : Type*) where
  world : World H
  log : List (Happening H)

/-- What the program may call, each at a reading of the clock. -/
inductive TimersLabel (H : Type*)
  | addTimer (mesc now : BitVec 32) (newlevel : ℕ) (handler : H)
  | delTimer (snode : NodePtr)
  | expireTimer (now : BitVec 32)

namespace Timers

/-- `SkipList()`, before anything is called. -/
def new (printfHello : H) : Timers H := ⟨World.new printfHello, []⟩

/-- The handlers called, each with the score and the time of the poll. -/
def called (m : Timers H) : List ((TimerId H × BitVec 64) × BitVec 32) := m.log.flatMap Happening.called

/-- The nodes deleted. -/
def deleted (m : Timers H) : List NodePtr := m.log.filterMap Happening.deleted?

/-- The times of the polls. -/
def polls (m : Timers H) : List (BitVec 32) := m.log.filterMap Happening.now?

/-- The state after a call. -/
def next (m : Timers H) : TimersLabel H → Option (Timers H)
  | .addTimer mesc now newlevel handler =>
    (SkipListTimer.addTimer m.world.list mesc now newlevel handler).map fun (list, x) =>
      ⟨⟨list, (x, newlevel) :: m.world.live⟩, m.log ++ [.added (x, handler) (mesc + now)]⟩
  | .delTimer snode => (SkipListTimer.delTimer m.world.list snode).map fun (list, removed) =>
      ⟨⟨list, dropRemoved removed m.world.live⟩, m.log ++ removed.toList.map .deleted⟩
  | .expireTimer now =>
    (SkipListTimer.expireTimer now (m.world.live.length + 1) m.world.list []).map fun (list, calls) =>
      ⟨⟨list, m.world.live.filter fun e => e.1 ∉ calls.map Prod.snd⟩,
        m.log ++ [.polled now (calls.map fun c => ((c.2, c.1), score m.world.list.heap c.2))]⟩

/-- A height that `RandomLevel` can return, and a node that is still live. -/
def Valid (m : Timers H) : TimersLabel H → Prop
  | .addTimer _ _ newlevel _ => 1 ≤ newlevel ∧ newlevel ≤ skiplistMaxlevel
  | .delTimer snode => snode ∈ m.world.live.map Prod.fst
  | .expireTimer _ => True

instance (m : Timers H) : (label : TimersLabel H) → Decidable (m.Valid label)
  | .addTimer _ _ _ _ => inferInstanceAs (Decidable (_ ∧ _))
  | .delTimer snode => inferInstanceAs (Decidable (snode ∈ m.world.live.map Prod.fst))
  | .expireTimer _ => inferInstanceAs (Decidable True)

/-- One call of a program. -/
def Step (m : Timers H) (label : TimersLabel H) (m' : Timers H) : Prop := m.Valid label ∧ m.next label = some m'

/-- Take a step after checking that it is valid. -/
def check (m : Timers H) (label : TimersLabel H) : Option (Timers H) := if m.Valid label then m.next label else none

/-- A checked step is a step. -/
theorem step_of_check {m m' : Timers H} {label : TimersLabel H} (h : m.check label = some m') : m.Step label m' :=
  Option.ite_none_right_eq_some.mp h

/-- The states of all runs. -/
def Reachable (printfHello : H) : Timers H → Prop := Transition.Reachable (· = new printfHello) Step

/-- The clock does not go back, and no sum in `Add_timer` wraps. -/
def Forward (m : Timers H) : TimersLabel H → Prop
  | .addTimer mesc now _ _ => (mesc + now).toNat = mesc.toNat + now.toNat ∧ ∀ p ∈ m.polls, p ≤ now
  | .delTimer _ => True
  | .expireTimer now => ∀ p ∈ m.polls, p ≤ now

-- the polls are searched, not the values of the clock
instance (m : Timers H) : (label : TimersLabel H) → Decidable (m.Forward label)
  | .addTimer _ _ _ _ => @instDecidableAnd _ _ _ (List.decidableBAll _ m.polls)
  | .delTimer _ => inferInstanceAs (Decidable True)
  | .expireTimer _ => List.decidableBAll _ m.polls

end Timers

/-! ## A poll keeps what is known of the list -/

/-- The removal of a first timer that is due, in the record. -/
theorem OrderInv.delHead_first {first : NodePtr} {rest : List NodePtr} (h : OrderInv w (first :: rest))
    (hdue : Due w.list.heap now first) :
    ∃ s removed, delHeadNode w.list = some (s, removed) ∧ s.fresh = w.list.fresh ∧
      SameTimers w.list.heap s.heap rest ∧ OrderInv ⟨s, dropRemoved (some first) w.live⟩ rest := by
  obtain ⟨s, removed, hdel, hsame, -⟩ := h.delHead_due hdue
  have hstep : Step w .delHead ⟨s, dropRemoved removed w.live⟩ := ⟨trivial, by rw [Call.exec, hdel, Option.map_some]⟩
  obtain ⟨rest', horder, hlive, hdeleted, hinv⟩ := h.delHead_front rfl (h.small_of_due List.mem_cons_self hdue) hstep
  obtain rfl := (List.cons.inj horder).2
  have hlive : dropRemoved removed w.live = dropRemoved (some first) w.live := hlive
  rw [hlive] at hinv
  exact ⟨s, removed, hdel, hdeleted.fresh, hsame, hinv⟩

/-- Dropping a node and then others. -/
theorem filter_dropRemoved (x : NodePtr) (gone : List NodePtr) (live : List (NodePtr × ℕ)) :
    (dropRemoved (some x) live).filter (fun e => e.1 ∉ gone) = live.filter fun e => e.1 ∉ x :: gone := by
  rw [dropRemoved, List.filter_filter]
  exact List.filter_congr fun e _ => by simp [Bool.and_comm]

/-- A poll leaves the later timers, and takes the others out of the record. -/
theorem OrderInv.expireTimer_live (h : OrderInv w order) (now : BitVec 32) :
    ∃ s' new, (∀ fuel calls, order.length < fuel →
        SkipListTimer.expireTimer now fuel w.list calls = some (s', calls ++ new)) ∧ s'.fresh = w.list.fresh ∧
      OrderInv ⟨s', w.live.filter fun e => e.1 ∉ new.map Prod.snd⟩ (laterTimers w.list.heap now order) := by
  induction order generalizing w with
  | nil =>
    refine ⟨w.list, [], fun fuel calls hfuel => ?_, rfl, ?_⟩
    · obtain ⟨fuel, rfl⟩ := Nat.exists_eq_succ_of_ne_zero (by omega : fuel ≠ 0)
      rw [SkipListTimer.expireTimer, h.tracks.represents.getMinNode_eq, Option.bind_some]
      simp
    · simpa [laterTimers] using h
  | cons first rest ih =>
    obtain ⟨node, hnode⟩ := Option.isSome_iff_exists.mp (h.tracks.isSome (h.front_live rfl))
    by_cases hdue : Due w.list.heap now first
    · obtain ⟨s, removed, hdel, hfresh, hsame, hinv⟩ := h.delHead_first hdue
      obtain ⟨s', new, hrun, hfresh', hafter⟩ := ih hinv
      refine ⟨s', (node.mHandle, first) :: new, fun fuel calls hfuel => ?_, hfresh'.trans hfresh, ?_⟩
      · obtain ⟨fuel, rfl⟩ := Nat.exists_eq_succ_of_ne_zero (by omega : fuel ≠ 0)
        have hrest := hrun fuel (calls ++ [(node.mHandle, first)]) (by simpa using hfuel)
        rw [List.append_assoc] at hrest
        rw [h.expireTimer_cons hnode, if_pos hdue, hdel, Option.bind_some]
        exact hrest
      · rw [filter_dropRemoved, hsame.laterTimers_eq] at hafter
        rwa [laterTimers, List.filter_cons_of_neg (by simp [hdue]), ← laterTimers]
    · have hlater : laterTimers w.list.heap now (first :: rest) = first :: rest :=
        List.filter_eq_self.mpr fun p hp => decide_eq_true (h.not_due rfl hdue hp)
      refine ⟨w.list, [], fun fuel calls hfuel => ?_, rfl, ?_⟩
      · obtain ⟨fuel, rfl⟩ := Nat.exists_eq_succ_of_ne_zero (by omega : fuel ≠ 0)
        rw [h.expireTimer_cons hnode, if_neg hdue, List.append_nil]
      · rw [hlater]
        simpa using h

/-! ## The list as a queue of timers -/

/-- A node as a timer, with its score. -/
def timerAt (heap : Heap H) (p : NodePtr) : Option (TimerId H × ℕ) :=
  (plainNode heap p).map fun n => ((n.ptr, n.mHandle), n.mScore.toNat)

/-- The timer of a node depends on its score and handler only. -/
theorem timerAt_congr {heap heap' : Heap H} {p : NodePtr}
    (h : (heap' p).map SkipListNode.shape = (heap p).map SkipListNode.shape) : timerAt heap' p = timerAt heap p := by
  rw [timerAt, timerAt, plainNode_congr h]

/-- The nodes of a list are the timers of a queue, each with its score. -/
def Lists (heap : Heap H) (order : List NodePtr) (timers : List (TimerId H × ℕ)) : Prop :=
  timers.map some = order.map (timerAt heap)

/-- Nodes that keep their scores and handlers stay the same timers. -/
theorem Lists.congr {heap heap' : Heap H} {timers : List (TimerId H × ℕ)} (h : Lists heap order timers)
    (hsame : SameTimers heap heap' order) : Lists heap' order timers :=
  h.trans (List.map_congr_left fun p hp => (timerAt_congr (hsame p hp)).symm)

/-- The timer of a live node. -/
theorem timerAt_eq {heap : Heap H} {p : NodePtr} {node : SkipListNode H} (h : heap p = some node) :
    timerAt heap p = some ((p, node.mHandle), (score heap p).toNat) := by
  rw [timerAt, plainNode, score, getScore, h]
  rfl

/-- The timer of a node with a known score and handler. -/
theorem timerAt_of_shape {heap : Heap H} {p : NodePtr} {stored : BitVec 64} {handler : H} {level : ℕ}
    (h : (heap p).map SkipListNode.shape = some (stored, handler, level)) :
    timerAt heap p = some ((p, handler), stored.toNat) := by
  rw [timerAt, plainNode_of_shape h, Option.map_some]

/-- Only live nodes are timers. -/
theorem exists_node_of_timerAt {heap : Heap H} {p : NodePtr} {key : TimerId H × ℕ} (h : timerAt heap p = some key) :
    ∃ node, heap p = some node ∧ key = ((p, node.mHandle), (score heap p).toNat) := by
  obtain ⟨n, hn, -⟩ := Option.map_eq_some_iff.mp h
  obtain ⟨node, hnode, -⟩ := Option.map_eq_some_iff.mp hn
  rw [timerAt_eq hnode, Option.some.injEq] at h
  exact ⟨node, hnode, h.symm⟩

/-- A new node among the others is one timer more. -/
theorem Lists.insert {heap heap' : Heap H} {A B : List NodePtr} {x : NodePtr} {timers : List (TimerId H × ℕ)}
    {t : TimerId H × ℕ} (h : Lists heap (A ++ B) timers) (hsame : ∀ p ∈ A ++ B, timerAt heap' p = timerAt heap p)
    (hx : timerAt heap' x = some t) : ∃ timers', timers'.Perm (t :: timers) ∧ Lists heap' (A ++ x :: B) timers' := by
  obtain ⟨timersA, timersB, rfl, hA, hB⟩ := List.map_eq_append_iff.mp (Eq.trans h List.map_append)
  refine ⟨timersA ++ t :: timersB, List.perm_middle, ?_⟩
  rw [Lists, List.map_append, List.map_cons, hA, hB, List.map_append, List.map_cons, hx,
    List.map_congr_left fun p hp => hsame p (List.mem_append_left _ hp),
    List.map_congr_left fun p hp => hsame p (List.mem_append_right _ hp)]

/-- Without one of the nodes there is one timer less, that of the node. -/
theorem Lists.delete {heap : Heap H} {A rest : List NodePtr} {d : NodePtr} {timers : List (TimerId H × ℕ)}
    (h : Lists heap (A ++ d :: rest) timers) :
    ∃ t timers', t.1.1 = d ∧ timers.Perm (t :: timers') ∧ Lists heap (A ++ rest) timers' := by
  obtain ⟨timersA, timersB, rfl, hA, hB⟩ := List.map_eq_append_iff.mp (Eq.trans h List.map_append)
  obtain ⟨t, timersB, rfl, ht, hrest⟩ := List.map_eq_cons_iff.mp hB
  refine ⟨t, timersA ++ timersB, ?_, List.perm_middle, ?_⟩
  · obtain ⟨node, -, hkey⟩ := exists_node_of_timerAt ht.symm
    exact congrArg (fun key => key.1.1) hkey
  · rw [Lists, List.map_append, hA, hrest, List.map_append]

/-- A selection of the nodes by what their timers say. -/
theorem Lists.filter {heap : Heap H} {timers : List (TimerId H × ℕ)} (h : Lists heap order timers)
    {P : NodePtr → Prop} [DecidablePred P] {Q : TimerId H × ℕ → Prop} [DecidablePred Q]
    (hPQ : ∀ p t, timerAt heap p = some t → (P p ↔ Q t)) :
    Lists heap (order.filter fun p => P p) (timers.filter fun t => Q t) := by
  induction order generalizing timers with
  | nil =>
    obtain rfl : timers = [] := List.map_eq_nil_iff.mp h
    rfl
  | cons p order ih =>
    obtain ⟨t, timers, rfl, ht, hrest⟩ := List.map_eq_cons_iff.mp h
    have hpt := hPQ p t ht.symm
    have hkept := ih hrest
    rw [Lists] at hkept ⊢
    by_cases hP : P p
    · rw [List.filter_cons_of_pos (by simpa using hpt.mp hP), List.filter_cons_of_pos (by simpa using hP),
        List.map_cons, List.map_cons, ht, hkept]
    · rw [List.filter_cons_of_neg (by simpa using mt hpt.mpr hP), List.filter_cons_of_neg (by simpa using hP)]
      exact hkept

/-- Whether a timer is due is the same for the list and for the queue. -/
theorem due_iff_of_timerAt {heap : Heap H} {p : NodePtr} {t : TimerId H × ℕ}
    (h : timerAt heap p = some t) : Due heap now p ↔ t.2 ≤ now.toNat := by
  obtain ⟨node, -, hkey⟩ := exists_node_of_timerAt h
  rw [Due, BitVec.le_def, toNat_target, ← (Prod.mk.inj hkey).2]

/-- The handlers called are those of the timers that are due, in this order. -/
theorem Lists.due_eq {heap : Heap H} {timers : List (TimerId H × ℕ)} {calls : List (H × NodePtr)}
    (h : Lists heap order timers) (hcalls : HandlersOf heap (dueTimers heap now order) calls) :
    (timers.filter fun t => t.2 ≤ now.toNat) = calls.map fun c => ((c.2, c.1), (score heap c.2).toNat) := by
  have hdue := h.filter (P := Due heap now) (Q := fun t => t.2 ≤ now.toNat) fun p t => due_iff_of_timerAt
  apply List.map_injective_iff.mpr (Option.some_injective _)
  rw [List.map_map]
  refine hdue.trans ?_
  change (dueTimers _ _ _).map _ = _
  rw [← hcalls.nodes, List.map_map]
  refine List.map_congr_left fun c hc => ?_
  obtain ⟨node, hnode, hhandle⟩ := hcalls.handles c hc
  rw [Function.comp_apply, timerAt_eq hnode, hhandle]
  rfl

/-- The timers that are due are called in the order of their scores. -/
theorem Lists.sorted_due {timers : List (TimerId H × ℕ)} {calls : List (H × NodePtr)}
    (h : Lists w.list.heap order timers) (hinv : OrderInv w order)
    (hcalls : HandlersOf w.list.heap (dueTimers w.list.heap now order) calls) :
    (timers.filter fun t => t.2 ≤ now.toNat).Pairwise fun t u => t.2 ≤ u.2 := by
  have hdue := @OrderInv.sorted_due _ _ _ now hinv
  rw [← dueTimers, ← hcalls.nodes, List.pairwise_map] at hdue
  rw [h.due_eq hcalls]
  exact List.pairwise_map.mpr (hdue.imp fun hle => BitVec.le_def.mp hle)

/-- What happens to the program happens to the queue, where a timer is due at the score that is stored for it. -/
inductive Agrees : Happening H → TimerQueue.Event (TimerId H) ℕ → Prop
  | added (timer : TimerId H) (requested : BitVec 32) :
    Agrees (.added timer requested) (.add timer (requested.signExtend 64).toNat)
  | deleted (timer : TimerId H) : Agrees (.deleted timer.1) (.cancel timer)
  | polled (now : BitVec 32) (called : List (TimerId H × BitVec 64)) :
    Agrees (.polled now called) (.poll now.toNat (called.map fun c => (c.1, c.2.toNat)))

/-- A queue of timers to which the same has happened in the same order, and whose timers are in the list. -/
structure Records (m : Timers H) (q : TimerQueue.State (TimerId H) ℕ) : Prop where
  pending : ∃ order timers, BottomLevel m.world.list order ∧ timers.Perm q.pending ∧
    Lists m.world.list.heap order timers
  log : List.Forall₂ Agrees m.log q.log

/-- The times of the polls agree. -/
theorem polls_eq {log : List (Happening H)} {events : List (TimerQueue.Event (TimerId H) ℕ)}
    (h : List.Forall₂ Agrees log events) :
    TimerQueue.polls events = (log.filterMap Happening.now?).map BitVec.toNat := by
  induction h with
  | nil => rfl
  | cons hagrees _ ih =>
    rw [TimerQueue.polls] at ih ⊢
    cases hagrees <;> simp [List.filterMap_cons, ih]

/-- The handlers called are those of the timers fired. -/
theorem fired_eq {log : List (Happening H)} {events : List (TimerQueue.Event (TimerId H) ℕ)}
    (h : List.Forall₂ Agrees log events) :
    TimerQueue.fired events = (log.flatMap Happening.called).map fun c => (c.1.1, c.1.2.toNat) := by
  induction h with
  | nil => rfl
  | cons hagrees _ ih =>
    rw [TimerQueue.fired] at ih ⊢
    cases hagrees <;> simp [ih]

/-- The same with what is known of a reachable list. -/
structure Follows (m : Timers H) (q : TimerQueue.State (TimerId H) ℕ) : Prop where
  records : Records m q
  inv : ∃ order, OrderInv m.world order
  old : ∀ t ∈ TimerQueue.added q.log, t.1.1 < m.world.list.fresh

/-- The queue takes the step of the program, if it takes one, and goes forward with it. -/
def Matched (m : Timers H) (label : TimersLabel H) (m' : Timers H) (q : TimerQueue.State (TimerId H) ℕ) : Prop :=
  Follows m' q ∨ ∃ event q', TimerQueue.Step q event q' ∧ Follows m' q' ∧
    (m.Forward label → TimerQueue.Forward q event)

namespace Follows

variable {m m' : Timers H} {q : TimerQueue.State (TimerId H) ℕ}

/-- What is known of the list, with the timers in its order. -/
theorem exists_timers (h : Follows m q) : ∃ order timers, OrderInv m.world order ∧ timers.Perm q.pending ∧
    Lists m.world.list.heap order timers := by
  obtain ⟨order, hinv⟩ := h.inv
  obtain ⟨order', timers, hbottom, hperm, hlists⟩ := h.records.pending
  obtain rfl := hinv.tracks.bottomLevel_iff.mp hbottom
  exact ⟨order', timers, hinv, hperm, hlists⟩

/-- The clock has not gone back for the queue either. -/
theorem polls_le (h : Follows m q) (hclock : ∀ p ∈ m.polls, p ≤ now) :
    ∀ p ∈ TimerQueue.polls q.log, p ≤ now.toNat := by
  rw [polls_eq h.records.log]
  rintro _ hmem
  obtain ⟨p, hp, rfl⟩ := List.mem_map.mp hmem
  exact BitVec.le_def.mp (hclock p hp)

/-- The program has recorded one more event. -/
theorem log_append (h : Follows m q) {happening : Happening H} {event : TimerQueue.Event (TimerId H) ℕ}
    (hagrees : Agrees happening event) : List.Forall₂ Agrees (m.log ++ [happening]) (q.log ++ [event]) :=
  List.rel_append h.records.log (.cons hagrees .nil)

/-- The next node has not been a timer before. -/
theorem fresh_not_added (h : Follows m q) (handler : H) :
    (m.world.list.fresh, handler) ∉ (TimerQueue.added q.log).map Prod.fst := fun hmem => by
  obtain ⟨e, he, heq⟩ := List.mem_map.mp hmem
  exact absurd (h.old e he) (by rw [heq]; exact lt_irrefl _)

/-- `Add_timer` adds a timer to the queue. -/
theorem addTimer (h : Follows m q) {mesc : BitVec 32} {newlevel : ℕ} {handler : H}
    (hstep : m.Step (.addTimer mesc now newlevel handler) m') :
    Matched m (.addTimer mesc now newlevel handler) m' q := by
  obtain ⟨hlevel, hnext⟩ := hstep
  obtain ⟨⟨list, x⟩, hadd, rfl⟩ := Option.map_eq_some_iff.mp hnext
  obtain ⟨order, timers, hinv, hperm, hlists⟩ := h.exists_timers
  have hcall : Step m.world (.insert (mesc + now) newlevel handler) ⟨list, (x, newlevel) :: m.world.live⟩ := by
    refine ⟨hlevel, ?_⟩
    rw [Call.exec, ← SkipListTimer.addTimer, hadd, Option.map_some]
  obtain ⟨order', -, hinv'⟩ := hinv.step hcall
  obtain ⟨s', _, _, A, B, hrun, rfl, -, hins, hrep⟩ :=
    hinv.tracks.represents.insertNode_spec (mesc + now) hlevel.1 hlevel.2 handler
  obtain ⟨rfl, rfl⟩ := Prod.mk.inj (Option.some.inj (hrun.symm.trans hadd))
  obtain rfl := hinv'.tracks.bottomLevel_iff.mp hrep.bottomLevel
  have hsame : ∀ p ∈ A ++ B, timerAt s'.heap p = timerAt m.world.list.heap p := fun p hp =>
    timerAt_congr (hins.others p fun heq =>
      hinv.tracks.represents.fresh_not_mem (heq ▸ List.mem_cons_of_mem _ hp))
  obtain ⟨timers', hperm', hlists'⟩ := hlists.insert hsame (timerAt_of_shape hins.self)
  refine Or.inr ⟨_, _, .add (h.fresh_not_added handler), ⟨⟨⟨_, timers', hinv'.tracks.bottomLevel,
    hperm'.trans (hperm.cons _), hlists'⟩, h.log_append (.added (m.world.list.fresh, handler) (mesc + now))⟩,
    ⟨_, hinv'⟩, ?_⟩, ?_⟩
  · change ∀ e ∈ TimerQueue.added (q.log ++ [_]), _ < s'.fresh
    rw [hins.fresh, TimerQueue.added_append]
    intro e he
    rcases List.mem_append.mp he with he | he
    · exact (h.old e he).trans (Nat.lt_succ_self _)
    · rw [List.mem_singleton.mp he]
      exact Nat.lt_succ_self _
  · rintro ⟨hsum, hclock⟩ p hp
    have hle := h.polls_le hclock p hp
    have hstored := toNat_stored (mesc + now)
    change p ≤ ((mesc + now).signExtend 64).toNat
    rw [hstored, hsum]
    split <;> omega

/-- `Del_timer` cancels a timer or nothing. -/
theorem delTimer (h : Follows m q) {snode : NodePtr} (hstep : m.Step (.delTimer snode) m') :
    Matched m (.delTimer snode) m' q := by
  obtain ⟨hlive, hnext⟩ := hstep
  obtain ⟨⟨list, removed⟩, hdel, rfl⟩ := Option.map_eq_some_iff.mp hnext
  obtain ⟨order, timers, hinv, hperm, hlists⟩ := h.exists_timers
  have hcall : Step m.world (.del snode) ⟨list, dropRemoved removed m.world.live⟩ := by
    refine ⟨hlive, ?_⟩
    rw [Call.exec, ← SkipListTimer.delTimer, hdel, Option.map_some]
  obtain ⟨order', heffect, hinv'⟩ := hinv.step hcall
  obtain ⟨s', removed', x, temp, A, B, hrun, rfl, hsearch, hcase⟩ :=
    hinv.tracks.represents.delNode_spec (hinv.tracks.isSome hlive)
  obtain ⟨rfl, rfl⟩ := Prod.mk.inj (Option.some.inj (hrun.symm.trans hdel))
  rcases hcase with ⟨d, rest, rfl, hfound, rfl, hdeleted, hrep⟩ | ⟨rfl, rfl, hmiss⟩
  · obtain rfl : A ++ rest = order' := hinv'.tracks.bottomLevel_iff.mp hrep.bottomLevel
    obtain ⟨t, timers', rfl, htimers, hlists'⟩ := hlists.delete
    refine Or.inr ⟨.cancel t.1, _, .cancel (hperm.symm.trans htimers), ⟨⟨⟨A ++ rest, timers', hrep.bottomLevel,
      List.Perm.refl _, hlists'.congr fun p hp => hdeleted.others p fun heq => ?_⟩, h.log_append (.deleted t.1)⟩,
      ⟨_, hinv'⟩, fun e he => ?_⟩, fun _ => trivial⟩
    · exact hinv.tracks.represents.not_mem_rest (heq ▸ List.mem_cons_of_mem _ hp)
    · exact hdeleted.fresh ▸ h.old e (by simpa using he)
  · refine Or.inl ⟨⟨⟨_, timers, hinv.tracks.bottomLevel, hperm, hlists⟩, ?_⟩, ⟨_, hinv'⟩, h.old⟩
    change List.Forall₂ Agrees (m.log ++ []) q.log
    rw [List.append_nil]
    exact h.records.log

/-- `expire_timer` is a poll. -/
theorem expireTimer (h : Follows m q) (hstep : m.Step (.expireTimer now) m') :
    Matched m (.expireTimer now) m' q := by
  obtain ⟨⟨list, calls⟩, hrun, rfl⟩ := Option.map_eq_some_iff.mp hstep.2
  obtain ⟨order, timers, hinv, hperm, hlists⟩ := h.exists_timers
  have hlength : order.length < m.world.live.length + 1 := by
    rw [← hinv.tracks.perm.length_eq, List.length_map]
    exact Nat.lt_succ_self _
  obtain ⟨s', new, hnew, hcalls, hrep, hkept⟩ := hinv.expireTimer now
  obtain ⟨s'', new', hnew', hfresh, hafter⟩ := hinv.expireTimer_live now
  obtain ⟨rfl, rfl⟩ := Prod.mk.inj (Option.some.inj ((hnew _ [] hlength).symm.trans hrun))
  obtain ⟨rfl, hsame⟩ := Prod.mk.inj (Option.some.inj ((hnew' _ [] hlength).symm.trans hrun))
  obtain rfl : new' = new := hsame
  have hlaterLists := hlists.filter (P := fun p => ¬ Due m.world.list.heap now p) (Q := fun t => now.toNat < t.2)
    fun p t ht => by rw [due_iff_of_timerAt ht, not_le]
  have hagrees : Agrees (.polled now (new'.map fun c => ((c.2, c.1), score m.world.list.heap c.2)))
      (.poll now.toNat (timers.filter fun t => t.2 ≤ now.toNat)) := by
    have hpolled := Agrees.polled now (new'.map fun c => ((c.2, c.1), score m.world.list.heap c.2))
    rw [List.map_map] at hpolled
    rw [hlists.due_eq hcalls]
    exact hpolled
  exact Or.inr ⟨_, _, .poll (hperm.filter _) (hlists.sorted_due hinv hcalls), ⟨⟨⟨_, _, hrep.bottomLevel, hperm.filter _,
    hlaterLists.congr hkept⟩, h.log_append hagrees⟩, ⟨_, hafter⟩,
    fun e he => hfresh ▸ h.old e (by simpa using he)⟩, fun hclock => h.polls_le hclock⟩

/-- The queue follows the program. -/
theorem step (h : Follows m q) {label : TimersLabel H} (hstep : m.Step label m') : Matched m label m' q := by
  cases label with
  | addTimer => exact h.addTimer hstep
  | delTimer => exact h.delTimer hstep
  | expireTimer => exact h.expireTimer hstep

/-- Before anything is called. -/
theorem new (printfHello : H) : Follows (Timers.new printfHello) (TimerQueue.State.new _ _) where
  records := ⟨⟨[], [], (tracks_new printfHello).bottomLevel, List.Perm.refl _, rfl⟩, .nil⟩
  inv := Reachable.orderInv (.init rfl)
  old := fun _ ht => absurd ht List.not_mem_nil

end Follows

/-- The timers of a program are simulated by a queue of timers. -/
theorem timers_simulation (printfHello : H) : Simulation (· = Timers.new printfHello) Timers.Step
    (· = TimerQueue.State.new _ _) TimerQueue.Step Follows where
  init := fun _ hm => ⟨_, rfl, hm ▸ .new printfHello⟩
  step := fun _ _ _ _ h hstep => (h.step hstep).imp id fun ⟨event, q', hq, hfollows, _⟩ => ⟨event, q', hq, hfollows⟩

/-- As long as the program goes forward, so does the queue. -/
theorem timers_simulation_forward (printfHello : H) :
    Simulation (· = Timers.new printfHello) (Restrict Timers.Step Timers.Forward)
      (· = TimerQueue.State.new _ _) (Restrict TimerQueue.Step TimerQueue.Forward) Follows where
  init := fun _ hm => ⟨_, rfl, hm ▸ .new printfHello⟩
  step := fun _ _ _ _ h hstep => (h.step hstep.1).imp id fun ⟨event, q', hq, hfollows, hforward⟩ =>
    ⟨event, q', ⟨hq, hforward hstep.2⟩, hfollows⟩

variable {m : Timers H}

/-- After every run of additions, cancellations and polls, whatever the scores, the heights and the clock, there is a
queue of timers with the same log: each timer added is in the list, deleted or fired, one of these and once, and each
poll has called the handlers of exactly the timers whose scores it was the first to reach. -/
theorem timers_refine_queue (h : m.Reachable printfHello) :
    ∃ q, TimerQueue.Reachable q ∧ TimerQueue.Sound q ∧ Records m q := by
  obtain ⟨q, hreach, hfollows⟩ := (timers_simulation printfHello).reachable h
  exact ⟨q, hreach, TimerQueue.Reachable.sound hreach, hfollows.records⟩

/-- Four timers, of which one is cancelled and one is requested for a time that the clock does not reach. -/
theorem timers_refine_queue_run : ∃ m : Timers Bool,
    m.called.map (fun c => (c.1.1, c.2)) = [((3, true), 6), ((1, false), 12)] ∧ m.deleted = [2] ∧
      m.world.live.map Prod.fst = [4] ∧ ∃ q, TimerQueue.Reachable q ∧ TimerQueue.Sound q ∧ Records m q := by
  have hrun : (replay Timers.check (Timers.new false) [.addTimer 7 3 1 false, .addTimer 4 3 2 true,
      .addTimer 2 3 3 true, .addTimer 0x80000000 4 1 false, .delTimer 2, .expireTimer 6, .expireTimer 12]).map
        (fun m => (m.called.map fun c => (c.1.1, c.2), m.deleted, m.world.live.map Prod.fst)) =
      some ([((3, true), 6), ((1, false), 12)], [2], [4]) := by decide
  obtain ⟨m, hrun, hm⟩ := Option.map_eq_some_iff.mp hrun
  simp only [Prod.mk.injEq] at hm
  obtain ⟨hcalled, hdeleted, hlive⟩ := hm
  exact ⟨m, hcalled, hdeleted, hlive, timers_refine_queue
    (Transition.Reachable.replay (fun _ _ _ => Timers.step_of_check) (.init rfl) hrun)⟩

/-- In every run in which the clock does not go back and no sum in `Add_timer` wraps, the handlers are called in the
order of the scores, over all polls together. -/
theorem called_inOrder
    (h : Transition.Reachable (· = Timers.new printfHello) (Restrict Timers.Step Timers.Forward) m) :
    (m.called.map fun c => c.1.2).Pairwise (· ≤ ·) := by
  obtain ⟨q, hreach, hfollows⟩ := (timers_simulation_forward printfHello).reachable h
  have hsorted := (TimerQueue.Reachable.inOrder hreach).fired
  rw [fired_eq hfollows.records.log, List.map_map, List.pairwise_map] at hsorted
  exact List.pairwise_map.mpr (hsorted.imp fun hle => BitVec.le_def.mpr hle)

/-- Three timers that fire in the order of their scores, at two polls. -/
theorem called_inOrder_run : ∃ m : Timers Unit, m.called.map (fun c => (c.1.1.1, c.1.2)) = [(2, 8), (1, 10), (3, 14)] ∧
    (m.called.map fun c => c.1.2).Pairwise (· ≤ ·) := by
  have hrun : (replay (guard Timers.Forward Timers.check) (Timers.new ()) [.addTimer 7 3 1 (), .addTimer 5 3 2 (),
      .expireTimer 11, .addTimer 2 12 1 (), .expireTimer 14]).map
        (fun m => m.called.map fun c => (c.1.1.1, c.1.2)) = some [(2, 8), (1, 10), (3, 14)] := by decide
  obtain ⟨m, hrun, hcalled⟩ := Option.map_eq_some_iff.mp hrun
  exact ⟨m, hcalled, called_inOrder
    (Transition.Reachable.replay_guard (fun _ _ _ => Timers.step_of_check) (.init rfl) hrun)⟩

end CppProject.SkipListTimer
