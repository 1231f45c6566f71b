import CppProject.SkipListTimer.Expire

/-!
# The timers that are due

With handlers that do not touch the list, a poll calls the handlers of exactly the timers with a score not
above the time, in the order of their scores, and leaves the others as they were. The timers that are due
are in front in every reachable list, whatever scores were requested: their scores are small, and small
scores come first and in order.
-/

namespace CppProject.SkipListTimer

open PointerChain Transition

variable {H : Type*} {printfHello : H} {w w' : World H} {order : List NodePtr} {now : BitVec 32}

/-- The loop of `expire_timer(zsl)` at a time, with the handlers it has called so far, each with its node. -/
def expireTimer (now : BitVec 32) : ℕ → SkipList H → List (H × NodePtr) →
    Option (SkipList H × List (H × NodePtr))
  | 0, _, _ => none
  | fuel + 1, s, calls =>
    (getMinNode s).bind fun
      | none => some (s, calls)
      | some x => (s.heap x).bind fun node =>
        if node.mScore > now.setWidth 64 then some (s, calls)
        else (delHeadNode s).bind fun after => expireTimer now fuel after.1 (calls ++ [(node.mHandle, x)])

/-- `GetScore() <= now`. -/
def Due (heap : Heap H) (now : BitVec 32) (p : NodePtr) : Prop := score heap p ≤ now.setWidth 64

instance (heap : Heap H) (now : BitVec 32) (p : NodePtr) : Decidable (Due heap now p) :=
  inferInstanceAs (Decidable (_ ≤ _))

/-- The loop takes the steps of a poll, with handlers that do nothing. -/
theorem expireTimer_run {fuel : ℕ} {p : Poll H} (hidle : p.running = none) {s' : SkipList H}
    {calls calls' : List (H × NodePtr)} (hrun : expireTimer now fuel p.world.list calls = some (s', calls')) :
    ∃ labels p' new, Transition.Run (PollStep now) p labels p' ∧ p'.world.list = s' ∧
      calls' = calls ++ new ∧ p'.invoked = p.invoked ++ new.map Prod.snd ∧
      ∀ label ∈ labels, label = .fire ∨ label = .handlerReturn := by
  induction fuel generalizing p calls with
  | zero => contradiction
  | succ fuel ih =>
    obtain ⟨first, hmin, hrun⟩ := Option.bind_eq_some_iff.mp hrun
    cases first with
    | none =>
      obtain ⟨rfl, rfl⟩ := Prod.mk.inj (Option.some.inj hrun)
      exact ⟨[], p, [], .nil, rfl, by simp, by simp, by simp⟩
    | some x =>
      obtain ⟨node, hnode, hrun⟩ := Option.bind_eq_some_iff.mp hrun
      split at hrun
      · obtain ⟨rfl, rfl⟩ := Prod.mk.inj (Option.some.inj hrun)
        exact ⟨[], p, [], .nil, rfl, by simp, by simp, by simp⟩
      · next hdue =>
        obtain ⟨⟨s, removed⟩, hdel, hrun⟩ := Option.bind_eq_some_iff.mp hrun
        have hfire : PollStep now p .fire { p with running := some x, invoked := p.invoked ++ [x] } := by
          refine ⟨trivial, ?_⟩
          rw [Poll.next, if_pos hidle, Poll.fire, hmin, Option.bind_some, Option.bind_some, getScore, hnode,
            Option.map_some, Option.bind_some, if_neg hdue]
        let after : Poll H :=
          { p with world := ⟨s, dropRemoved removed p.world.live⟩, running := none, invoked := p.invoked ++ [x] }
        have hreturn : PollStep now { p with running := some x, invoked := p.invoked ++ [x] } .handlerReturn
            after := by
          refine ⟨trivial, ?_⟩
          rw [Poll.next, if_neg (by simp), Call.exec, hdel, Option.map_some, Option.map_some]
        obtain ⟨labels, p', new, hrest, hlist, hcalls, hinvoked, hlabels⟩ := ih (p := after) rfl hrun
        refine ⟨.fire :: .handlerReturn :: labels, p', (node.mHandle, x) :: new,
          .cons hfire (.cons hreturn hrest), hlist, by rw [hcalls, List.append_assoc]; rfl, ?_, ?_⟩
        · rw [hinvoked, List.append_assoc]
          rfl
        · simpa using hlabels

/-! ## What is due -/

/-- A stored score that is due is small. -/
theorem OrderInv.small_of_due (h : OrderInv w order) {p : NodePtr} (hp : p ∈ order)
    (hdue : Due w.list.heap now p) : Small w.list.heap p := by
  by_contra hlarge
  have hle := h.stored.le_of_not_small hp hlarge
  have htarget := toNat_target now
  have hnow := now.isLt
  rw [Due, BitVec.le_def] at hdue
  omega

/-- Behind a timer that is not due none is due. -/
theorem OrderInv.not_due (h : OrderInv w order) {first : NodePtr} (hfirst : order.head? = some first)
    (hnot : ¬ Due w.list.heap now first) {p : NodePtr} (hp : p ∈ order) : ¬ Due w.list.heap now p := fun hdue => by
  have hle := h.front_le hfirst (h.tracks.perm.mem_iff.mpr hp) (h.small_of_due hp hdue)
  exact hnot (BitVec.le_trans hle hdue)

/-- The timers that are due are in the order of their scores. -/
theorem OrderInv.sorted_due (h : OrderInv w order) :
    (order.filter fun p => decide (Due w.list.heap now p)).Pairwise
      fun p q => score w.list.heap p ≤ score w.list.heap q := by
  refine (List.pairwise_filter.mpr (h.layered.imp_of_mem fun {p q} hp _ hpq hdue _ => ?_))
  exact hpq.resolve_right fun hlarge => hlarge.1 (h.small_of_due hp (of_decide_eq_true hdue))

/-- The timers with `GetScore() <= now`, in the order of the list. -/
def dueTimers (heap : Heap H) (now : BitVec 32) (order : List NodePtr) : List NodePtr :=
  order.filter fun p => decide (Due heap now p)

/-- The timers with `GetScore() > now`, in the order of the list. -/
def laterTimers (heap : Heap H) (now : BitVec 32) (order : List NodePtr) : List NodePtr :=
  order.filter fun p => decide (¬ Due heap now p)

/-- Nodes that are as they were, up to their links. -/
def SameTimers (heap heap' : Heap H) (nodes : List NodePtr) : Prop :=
  ∀ p ∈ nodes, (heap' p).map SkipListNode.shape = (heap p).map SkipListNode.shape

/-- The same timers are due. -/
theorem SameTimers.due_iff {heap heap' : Heap H} {nodes : List NodePtr} (h : SameTimers heap heap' nodes)
    {p : NodePtr} (hp : p ∈ nodes) : Due heap' now p ↔ Due heap now p := by
  rw [Due, Due, score_eq_shape, score_eq_shape, h p hp]

/-- The same timers are due, in the same order. -/
theorem SameTimers.dueTimers_eq {heap heap' : Heap H} {nodes : List NodePtr} (h : SameTimers heap heap' nodes) :
    dueTimers heap' now nodes = dueTimers heap now nodes :=
  List.filter_congr fun p hp => by simp only [h.due_iff hp]

/-- The others are the same, in the same order. -/
theorem SameTimers.laterTimers_eq {heap heap' : Heap H} {nodes : List NodePtr}
    (h : SameTimers heap heap' nodes) : laterTimers heap' now nodes = laterTimers heap now nodes :=
  List.filter_congr fun p hp => by simp only [h.due_iff hp]

/-- The handlers of the given timers, each with its node. -/
structure HandlersOf (heap : Heap H) (nodes : List NodePtr) (calls : List (H × NodePtr)) : Prop where
  nodes : calls.map Prod.snd = nodes
  handles : ∀ c ∈ calls, ∃ node, heap c.2 = some node ∧ node.mHandle = c.1

/-- A handler is part of a node's shape. -/
theorem HandlersOf.congr {heap heap' : Heap H} {nodes : List NodePtr} {calls : List (H × NodePtr)}
    (h : HandlersOf heap' nodes calls) (hsame : SameTimers heap heap' nodes) : HandlersOf heap nodes calls where
  nodes := h.nodes
  handles := fun c hc => by
    obtain ⟨node, hnode, hhandle⟩ := h.handles c hc
    have hshape := hsame c.2 (h.nodes ▸ List.mem_map_of_mem hc)
    rw [hnode, Option.map_some] at hshape
    obtain ⟨node', hnode', hsame'⟩ := Option.map_eq_some_iff.mp hshape.symm
    exact ⟨node', hnode', (congrArg (fun shape => shape.2.1) hsame').trans hhandle⟩

/-- The removal of a first timer that is due. -/
theorem OrderInv.delHead_due {first : NodePtr} {rest : List NodePtr} (h : OrderInv w (first :: rest))
    (hdue : Due w.list.heap now first) :
    ∃ s removed, delHeadNode w.list = some (s, removed) ∧ SameTimers w.list.heap s.heap rest ∧
      OrderInv ⟨s, dropRemoved removed w.live⟩ rest := by
  have hvalid : (Call.delHead : Call H).Valid w := trivial
  obtain ⟨w', -, hexec, -, -⟩ := h.tracks.exec hvalid
  obtain ⟨rest', horder, -, hdel, hinv⟩ :=
    h.delHead_front rfl (h.small_of_due List.mem_cons_self hdue) ⟨trivial, hexec⟩
  obtain rfl := (List.cons.inj horder).2
  obtain ⟨⟨s, removed⟩, hrun, rfl⟩ := Option.map_eq_some_iff.mp hexec
  refine ⟨s, removed, hrun, fun p hp => hdel.others p fun heq => ?_, hinv⟩
  exact (List.nodup_cons.mp (List.nodup_cons.mp h.tracks.represents.nodup).2).1 (heq ▸ hp)

/-- A round of a poll: it ends at the first timer unless this one is due. -/
theorem OrderInv.expireTimer_cons {first : NodePtr} {rest : List NodePtr} (h : OrderInv w (first :: rest))
    {node : SkipListNode H} (hnode : w.list.heap first = some node) (fuel : ℕ) (calls : List (H × NodePtr)) :
    SkipListTimer.expireTimer now (fuel + 1) w.list calls = if Due w.list.heap now first then
        (delHeadNode w.list).bind fun (s, _) =>
          SkipListTimer.expireTimer now fuel s (calls ++ [(node.mHandle, first)])
      else some (w.list, calls) := by
  have hscore : node.mScore > now.setWidth 64 ↔ ¬ Due w.list.heap now first := by
    rw [Due, score, getScore, hnode, Option.map_some, Option.getD_some]
    exact BitVec.not_le.symm
  rw [SkipListTimer.expireTimer, h.tracks.represents.getMinNode_eq, Option.bind_some]
  simp only [List.head?_cons, hnode, Option.bind_some, hscore, ite_not]

/-- A poll of a list whose timers are in the given order. -/
theorem OrderInv.expireTimer (h : OrderInv w order) (now : BitVec 32) :
    ∃ s' new, (∀ fuel calls, order.length < fuel →
        SkipListTimer.expireTimer now fuel w.list calls = some (s', calls ++ new)) ∧
      HandlersOf w.list.heap (dueTimers w.list.heap now order) new ∧
      Represents s' (laterTimers w.list.heap now order) ∧
      SameTimers w.list.heap s'.heap (laterTimers w.list.heap now order) := by
  induction order generalizing w with
  | nil =>
    refine ⟨w.list, [], fun fuel calls hfuel => ?_, ⟨rfl, by simp⟩, h.tracks.represents, fun _ _ => rfl⟩
    obtain ⟨fuel, rfl⟩ := Nat.exists_eq_succ_of_ne_zero (by omega : fuel ≠ 0)
    rw [SkipListTimer.expireTimer, h.tracks.represents.getMinNode_eq, Option.bind_some]
    simp
  | cons first rest ih =>
    obtain ⟨node, hnode⟩ := Option.isSome_iff_exists.mp (h.tracks.isSome (h.front_live rfl))
    by_cases hdue : Due w.list.heap now first
    · obtain ⟨s, removed, hdel, hsame, hinv⟩ := h.delHead_due hdue
      obtain ⟨s', new, hrun, hnew, hrep, hkept⟩ := ih hinv
      rw [hsame.dueTimers_eq] at hnew
      rw [hsame.laterTimers_eq] at hrep hkept
      have hdueFirst : dueTimers w.list.heap now (first :: rest) =
          first :: dueTimers w.list.heap now rest := List.filter_cons_of_pos (decide_eq_true hdue)
      have hlater : laterTimers w.list.heap now (first :: rest) = laterTimers w.list.heap now rest :=
        List.filter_cons_of_neg (by simp [hdue])
      have hcongr := hnew.congr fun p hp => hsame p (List.mem_filter.mp hp).1
      refine ⟨s', (node.mHandle, first) :: new, fun fuel calls hfuel => ?_, ⟨?_, ?_⟩, hlater ▸ hrep,
        fun p hp => ?_⟩
      · obtain ⟨fuel, rfl⟩ := Nat.exists_eq_succ_of_ne_zero (by omega : fuel ≠ 0)
        have hrest := hrun fuel (calls ++ [(node.mHandle, first)]) (by simpa using hfuel)
        rw [List.append_assoc] at hrest
        rw [h.expireTimer_cons hnode, if_pos hdue, hdel, Option.bind_some]
        exact hrest
      · rw [hdueFirst, List.map_cons, hnew.nodes]
      · exact List.forall_mem_cons.mpr ⟨⟨node, hnode, rfl⟩, hcongr.handles⟩
      · rw [hlater] at hp
        exact (hkept p hp).trans (hsame p (List.mem_filter.mp hp).1)
    · have hnone : ∀ p ∈ first :: rest, ¬ Due w.list.heap now p := fun p hp => h.not_due rfl hdue hp
      have hlater : laterTimers w.list.heap now (first :: rest) = first :: rest :=
        List.filter_eq_self.mpr fun p hp => decide_eq_true (hnone p hp)
      refine ⟨w.list, [], fun fuel calls hfuel => ?_, ⟨?_, by simp⟩, ?_, fun _ _ => rfl⟩
      · obtain ⟨fuel, rfl⟩ := Nat.exists_eq_succ_of_ne_zero (by omega : fuel ≠ 0)
        rw [h.expireTimer_cons hnode, if_neg hdue, List.append_nil]
      · exact (List.filter_eq_nil_iff.mpr fun p hp => by simpa using hnone p hp).symm
      · rw [hlater]
        exact h.tracks.represents

/-- A poll has called the handlers of exactly the timers that were due, each once and in the order of their
scores, and has left exactly the others, in their order and as they were. -/
structure FiresDue (w : World H) (now : BitVec 32) (calls : List (H × NodePtr)) (s' : SkipList H) : Prop where
  exact : ∀ p, p ∈ calls.map Prod.snd ↔ p ∈ w.live.map Prod.fst ∧ Due w.list.heap now p
  handles : ∀ c ∈ calls, ∃ node, w.list.heap c.2 = some node ∧ node.mHandle = c.1
  once : (calls.map Prod.snd).Nodup
  sorted : (calls.map Prod.snd).Pairwise fun p q => score w.list.heap p ≤ score w.list.heap q
  left : ∃ order, BottomLevel w.list order ∧ BottomLevel s' (laterTimers w.list.heap now order)
  kept : SameTimers w.list.heap s'.heap ((w.live.map Prod.fst).filter fun p => decide (¬ Due w.list.heap now p))
  length : s'.mLength = w.list.mLength - calls.length

/-- Every poll of a reachable list, with handlers that do not touch it, ends and fires what is due. It is a run of the
steps of a poll. -/
theorem expireTimer_firesDue (h : Reachable printfHello w) (now : BitVec 32) :
    ∃ s' calls, FiresDue w now calls s' ∧
      (∀ fuel, w.live.length < fuel → expireTimer now fuel w.list [] = some (s', calls)) ∧
      ∃ labels p, Run (PollStep now) (Poll.start w) labels p ∧ p.world.list = s' ∧
        p.invoked = calls.map Prod.snd ∧ ∀ label ∈ labels, label = .fire ∨ label = .handlerReturn := by
  obtain ⟨order, hinv⟩ := h.orderInv
  have hlength : order.length = w.live.length := by
    rw [← hinv.tracks.perm.length_eq, List.length_map]
  obtain ⟨s', calls, hrun, hcalls, hrep, hkept⟩ := hinv.expireTimer now
  have hmem : ∀ p, p ∈ order ↔ p ∈ w.live.map Prod.fst := fun p => hinv.tracks.perm.mem_iff.symm
  refine ⟨s', calls, ⟨fun p => ?_, hcalls.handles, ?_, ?_, ⟨order, hinv.tracks.bottomLevel, hrep.bottomLevel⟩,
    fun p hp => hkept p ?_, ?_⟩, fun fuel hfuel => hrun fuel [] (by omega), ?_⟩
  · rw [hcalls.nodes, dueTimers, List.mem_filter, decide_eq_true_eq, hmem]
  · rw [hcalls.nodes]
    exact (List.nodup_cons.mp hinv.tracks.represents.nodup).2.filter _
  · rw [hcalls.nodes]
    exact hinv.sorted_due
  · rw [laterTimers, List.mem_filter, hmem]
    exact List.mem_filter.mp hp
  · have hsplit := List.length_eq_length_filter_add (l := order) fun p => decide (Due w.list.heap now p)
    have hcount : calls.length = (dueTimers w.list.heap now order).length := by
      rw [← hcalls.nodes, List.length_map]
    rw [hrep.length, hinv.tracks.represents.length, hcount, dueTimers, laterTimers]
    simp only [decide_not]
    omega
  · have hidle : (Poll.start w).running = none := rfl
    obtain ⟨labels, p, new, hpoll, hlist, rfl, hinvoked, hlabels⟩ :=
      expireTimer_run hidle (hrun (order.length + 1) [] (Nat.lt_succ_self _))
    exact ⟨labels, p, hpoll, hlist, hinvoked, hlabels⟩

/-- Two of four timers are due; one of the others was requested for a time the clock does not reach. -/
theorem expireTimer_firesDue_two : ∃ (w : World Bool) (s' : SkipList Bool),
    runCalls false [.insert 7 1 true, .insert 0x80000000 2 false, .insert 5 3 false, .insert 12 1 true] = some w ∧
      FiresDue w 10 [(false, 3), (true, 1)] s' ∧
        expireTimer 10 5 w.list [] = some (s', [(false, 3), (true, 1)]) := by
  have hrun : ((runCalls false [.insert 7 1 true, .insert 0x80000000 2 false, .insert 5 3 false,
      .insert 12 1 true]).bind fun w => (expireTimer 10 5 w.list []).map fun after => (w.live.length, after.2)) =
        some (4, [(false, 3), (true, 1)]) := by decide
  obtain ⟨w, hw, hrun⟩ := Option.bind_eq_some_iff.mp hrun
  obtain ⟨⟨s', calls⟩, hexpire, hcalls⟩ := Option.map_eq_some_iff.mp hrun
  obtain ⟨hlive, rfl⟩ := Prod.mk.inj hcalls
  obtain ⟨s'', calls', hfires, hall, -⟩ := expireTimer_firesDue (reachable_of_runCalls hw) 10
  obtain ⟨rfl, rfl⟩ := Prod.mk.inj (Option.some.inj ((hall 5 (by omega)).symm.trans hexpire))
  exact ⟨w, s'', hw, hfires, hexpire⟩

end CppProject.SkipListTimer
