import CppProject.SkipListTimer.Due

/-!
# The list without its levels

The same operations on a single linked list, with linear scans in the place of the searches and without heights. As
long as the timers that are deleted have small scores, whatever scores are inserted, a skip list and the plain list
answer every call of a run alike, and hold the same timers in the same order; so nothing a caller sees depends on the
heights that were drawn. Among large scores the searches of a deletion may go wrong, and then the heights decide.
-/

namespace CppProject.SkipListTimer

open PointerChain Transition

variable {H : Type*} {printfHello : H} {w w' : World H} {order A B : List NodePtr} {p : NodePtr}

/-- A node without its links. -/
structure PlainNode (H : Type*) where
  ptr : NodePtr
  mScore : BitVec 64
  mHandle : H

/-- The nodes in order, and the address the next `new` returns. -/
structure PlainList (H : Type*) where
  nodes : List (PlainNode H)
  fresh : NodePtr

/-- A call without the height. -/
inductive PlainCall (H : Type*)
  | insert (score : BitVec 32) (handler : H)
  | del (snode : NodePtr)
  | delHead

/-- The call as its caller makes it. -/
def Call.plain : Call H → PlainCall H
  | .insert score _ handler => .insert score handler
  | .del snode => .del snode
  | .delHead => .delHead

namespace PlainList

/-- The empty list, at the addresses of `SkipList()`. -/
def new (H : Type*) : PlainList H := ⟨[], 1⟩

/-- Place a node in front of the first one with a score that is not below the requested one. -/
def insertNode (l : PlainList H) (score : BitVec 32) (handler : H) : PlainList H where
  nodes := (l.nodes.takeWhile fun n => n.mScore < score.setWidth 64) ++
    ⟨l.fresh, score.signExtend 64, handler⟩ :: l.nodes.dropWhile fun n => n.mScore < score.setWidth 64
  fresh := l.fresh + 1

/-- Take out the first node with a score, with its address. -/
def delScore (l : PlainList H) (score : BitVec 64) : PlainList H × Option NodePtr :=
  ({ l with nodes := l.nodes.eraseP fun n => n.mScore = score },
    (l.nodes.find? fun n => n.mScore = score).map PlainNode.ptr)

/-- The list after a call, and the node the call returns or deletes. -/
def exec (l : PlainList H) : PlainCall H → PlainList H × Option NodePtr
  | .insert score handler => (l.insertNode score handler, some l.fresh)
  | .del snode => ((l.nodes.find? fun n => n.ptr = snode).map fun n => l.delScore n.mScore).getD (l, none)
  | .delHead => ({ l with nodes := l.nodes.tail }, l.nodes.head?.map PlainNode.ptr)

/-- The list after a run, and the answers. -/
def run (l : PlainList H) : List (PlainCall H) → PlainList H × List (Option NodePtr)
  | [] => (l, [])
  | call :: rest => (((l.exec call).1.run rest).1, (l.exec call).2 :: ((l.exec call).1.run rest).2)

end PlainList

/-- The node a call returns or deletes. -/
def Call.answer (w : World H) : Call H → Option (Option NodePtr)
  | .insert score newlevel handler => (insertNode w.list score newlevel handler).map fun after => some after.2
  | .del snode => (delNode w.list snode).map Prod.snd
  | .delHead => (delHeadNode w.list).map Prod.snd

/-- The answers of a run. -/
def answers (w : World H) : List (Call H) → Option (List (Option NodePtr))
  | [] => some []
  | call :: rest => (call.answer w).bind fun answer => (call.exec w).bind fun w' =>
      (answers w' rest).map fun later => answer :: later

/-- The node whose score is searched for has a small score. -/
def SmallVictim (w : World H) : Call H → Prop
  | .insert _ _ _ => True
  | .del snode => Small w.list.heap snode
  | .delHead => ∀ first ∈ (getMinNode w.list).join, Small w.list.heap first

instance (w : World H) : (call : Call H) → Decidable (SmallVictim w call)
  | .insert _ _ _ => inferInstanceAs (Decidable True)
  | .del snode => inferInstanceAs (Decidable (Small w.list.heap snode))
  | .delHead => inferInstanceAs (Decidable (∀ first ∈ (getMinNode w.list).join, Small w.list.heap first))

/-- A node of the heap without its links. -/
def plainNode (heap : Heap H) (p : NodePtr) : Option (PlainNode H) :=
  (heap p).map fun node => ⟨p, node.mScore, node.mHandle⟩

/-- The nodes of a list in order are those of a plain one. -/
def Shows (heap : Heap H) (order : List NodePtr) (nodes : List (PlainNode H)) : Prop :=
  nodes.map some = order.map (plainNode heap)

/-- The skip list holds the nodes of the plain list. -/
structure Mirrors (w : World H) (l : PlainList H) : Prop where
  nodes : ∃ order, OrderInv w order ∧ Shows w.list.heap order l.nodes
  fresh : l.fresh = w.list.fresh

/-! ## The nodes of a list -/

/-- A node is shown with the score and the handler of its shape. -/
theorem plainNode_of_shape {heap : Heap H} {stored : BitVec 64} {handler : H} {level : ℕ}
    (h : (heap p).map SkipListNode.shape = some (stored, handler, level)) :
    plainNode heap p = some ⟨p, stored, handler⟩ := by
  obtain ⟨node, hnode, hshape⟩ := Option.map_eq_some_iff.mp h
  rw [SkipListNode.shape, Prod.mk.injEq, Prod.mk.injEq] at hshape
  obtain ⟨rfl, rfl, -⟩ := hshape
  rw [plainNode, hnode, Option.map_some]

/-- Nodes of the same shape are shown alike. -/
theorem plainNode_congr {heap heap' : Heap H}
    (h : (heap' p).map SkipListNode.shape = (heap p).map SkipListNode.shape) :
    plainNode heap' p = plainNode heap p := by
  have hshape : ∀ heap : Heap H, plainNode heap p =
      ((heap p).map SkipListNode.shape).map fun shape => ⟨p, shape.1, shape.2.1⟩ := fun heap => by
    rw [Option.map_map]
    rfl
  rw [hshape, hshape, h]

/-- A node is shown with its own address and score. -/
theorem score_of_plainNode {heap : Heap H} {n : PlainNode H} (h : plainNode heap p = some n) :
    n.ptr = p ∧ n.mScore = score heap p := by
  obtain ⟨node, hnode, rfl⟩ := Option.map_eq_some_iff.mp h
  rw [score, getScore, hnode]
  exact ⟨rfl, rfl⟩

namespace Shows

variable {heap heap' : Heap H} {nodes : List (PlainNode H)}

/-- Links do not matter. -/
theorem congr (h : Shows heap order nodes) (hsame : SameTimers heap heap' order) : Shows heap' order nodes :=
  h.trans (List.map_congr_left fun p hp => (plainNode_congr (hsame p hp)).symm)

/-- What is shown in two parts. -/
theorem exists_append (h : Shows heap (A ++ B) nodes) :
    ∃ nodesA nodesB, nodes = nodesA ++ nodesB ∧ Shows heap A nodesA ∧ Shows heap B nodesB := by
  obtain ⟨nodesA, nodesB, rfl, hA, hB⟩ := List.map_eq_append_iff.mp (h.trans List.map_append)
  exact ⟨nodesA, nodesB, rfl, hA, hB⟩

/-- Two parts shown together. -/
theorem append {nodesA nodesB : List (PlainNode H)} (hA : Shows heap A nodesA) (hB : Shows heap B nodesB) :
    Shows heap (A ++ B) (nodesA ++ nodesB) := by
  rw [Shows, List.map_append, List.map_append, hA, hB]

/-- Each node of the plain list is one of the order, with its score. -/
theorem mem (h : Shows heap order nodes) {n : PlainNode H} (hn : n ∈ nodes) :
    n.ptr ∈ order ∧ n.mScore = score heap n.ptr := by
  have hmem : some n ∈ order.map (plainNode heap) := h ▸ List.mem_map_of_mem hn
  obtain ⟨p, hp, hnode⟩ := List.mem_map.mp hmem
  obtain ⟨rfl, hscore⟩ := score_of_plainNode hnode
  exact ⟨hp, hscore⟩

/-- The addresses are those of the order. -/
theorem map_ptr (h : Shows heap order nodes) : nodes.map PlainNode.ptr = order := by
  induction order generalizing nodes with
  | nil =>
    obtain rfl : nodes = [] := List.map_eq_nil_iff.mp h
    rfl
  | cons p order ih =>
    obtain ⟨n, nodes, rfl, hn, hrest⟩ := List.map_eq_cons_iff.mp h
    rw [List.map_cons, (score_of_plainNode hn.symm).1, ih hrest]

end Shows

/-! ## One call -/

/-- A scan stops between the nodes below a score and the others. -/
theorem takeWhile_dropWhile_append {nodesA nodesB : List (PlainNode H)} {target : BitVec 64}
    (hA : ∀ n ∈ nodesA, n.mScore < target) (hB : ∀ n ∈ nodesB, target ≤ n.mScore) :
    (nodesA ++ nodesB).takeWhile (fun n => n.mScore < target) = nodesA ∧
      (nodesA ++ nodesB).dropWhile (fun n => n.mScore < target) = nodesB := by
  rw [List.takeWhile_append_of_pos (by simpa using hA), List.dropWhile_append_of_pos (by simpa using hA)]
  cases nodesB with
  | nil => simp
  | cons n nodesB =>
    have hn : ¬ n.mScore < target := BitVec.not_lt.mpr (hB n List.mem_cons_self)
    rw [List.takeWhile_cons_of_neg (by simpa using hn), List.dropWhile_cons_of_neg (by simpa using hn), List.append_nil]
    exact ⟨rfl, rfl⟩

/-- `Del_node` of a small timer deletes the first node with its score. -/
theorem OrderInv.delNode_small (h : OrderInv w order) (hp : p ∈ w.live.map Prod.fst) (hsmall : Small w.list.heap p) :
    ∃ s' d A rest, delNode w.list p = some (s', some d) ∧ order = A ++ d :: rest ∧
      (∀ a ∈ A, score w.list.heap a < score w.list.heap p) ∧ score w.list.heap d = score w.list.heap p ∧
      Deleted w.list s' d ∧ OrderInv ⟨s', dropRemoved (some d) w.live⟩ (A ++ rest) := by
  obtain ⟨s', removed, x, temp, A, B, hrun, rfl, hsearch, hcase⟩ :=
    h.tracks.represents.delNode_spec (h.tracks.isSome hp)
  obtain ⟨hbelow, habove⟩ := hsearch.bounds_layered h.tracks.represents h.stored h.layered
    (hsmall.trans (by decide))
  obtain ⟨d, rest, rfl, hfound⟩ := exists_front_eq hbelow habove (h.tracks.perm.mem_iff.mp hp)
    fun d rest hB hpB => by
      subst hB
      exact Layered.front_le (List.pairwise_append.mp h.layered).2.1 hpB hsmall
  rcases hcase with ⟨d', rest', hB, -, rfl, hdel, hrep⟩ | ⟨-, -, hmiss⟩
  · obtain ⟨rfl, rfl⟩ := List.cons.inj hB
    have hstep : Step w (.del p) ⟨s', dropRemoved (some d) w.live⟩ :=
      ⟨hp, by rw [Call.exec, hrun, Option.map_some]⟩
    obtain ⟨order', -, hinv⟩ := h.step hstep
    obtain rfl := hinv.tracks.bottomLevel_iff.mp hrep.bottomLevel
    exact ⟨s', d, A, rest, hrun, rfl, hbelow, hfound, hdel, hinv⟩
  · exact absurd hfound (hmiss d rfl)

namespace Mirrors

variable {l : PlainList H}

/-- The plain list takes out a node as the skip list does. -/
theorem delScore {nodesA rest : List (PlainNode H)} {n : PlainNode H} {c : BitVec 64} (hn : n.mScore = c)
    (hA : ∀ a ∈ nodesA, a.mScore < c) (hl : l.nodes = nodesA ++ n :: rest) :
    l.delScore c = ({ l with nodes := nodesA ++ rest }, some n.ptr) := by
  have hne : ∀ a ∈ nodesA, ¬ decide (a.mScore = c) = true := fun a ha => by
    simpa using BitVec.ne_of_lt (hA a ha)
  rw [PlainList.delScore, hl, List.eraseP_append_right _ hne, List.eraseP_cons_of_pos (by simpa using hn),
    List.find?_append, List.find?_eq_none.mpr hne, Option.none_or, List.find?_cons_of_pos (by simpa using hn),
    Option.map_some]

/-- A call of the skip list is the call of the plain list. -/
theorem exec (h : Mirrors w l) {call : Call H} (hstep : Step w call w') (hsmall : SmallVictim w call) :
    call.answer w = some (l.exec call.plain).2 ∧ Mirrors w' (l.exec call.plain).1 := by
  obtain ⟨⟨order, hinv, hshows⟩, hfresh⟩ := h
  cases call with
  | insert requested newlevel handler =>
    obtain ⟨order', -, hinv'⟩ := hinv.step hstep
    obtain ⟨s', x, temp, A, B, hrun, rfl, hsearch, hins, hrep⟩ :=
      hinv.tracks.represents.insertNode_spec requested hstep.1.1 hstep.1.2 handler
    obtain rfl : (⟨s', (w.list.fresh, newlevel) :: w.live⟩ : World H) = w' := by
      have hexec := hstep.2
      rwa [Call.exec, hrun, Option.map_some, Option.some.injEq] at hexec
    obtain rfl := hinv'.tracks.bottomLevel_iff.mp hrep.bottomLevel
    obtain ⟨hbelow, habove⟩ := hsearch.bounds_layered hinv.tracks.represents hinv.stored hinv.layered (by
      rw [toNat_target]
      exact BitVec.isLt _)
    obtain ⟨nodesA, nodesB, hnodes, hA, hB⟩ := hshows.exists_append
    have hsame : SameTimers w.list.heap s'.heap (A ++ B) := fun p hp => hins.others p fun heq =>
      hinv.tracks.represents.fresh_not_mem (heq ▸ List.mem_cons_of_mem _ hp)
    obtain ⟨htake, hdrop⟩ := takeWhile_dropWhile_append
      (fun n hn => (hA.mem hn).2 ▸ hbelow _ (hA.mem hn).1) fun n hn => (hB.mem hn).2 ▸ habove _ (hB.mem hn).1
    refine ⟨by rw [Call.answer, hrun, Call.plain, PlainList.exec, hfresh]; rfl, ⟨_, hinv', ?_⟩, ?_⟩
    · change Shows s'.heap _ (PlainList.insertNode l requested handler).nodes
      rw [PlainList.insertNode, hnodes, htake, hdrop, hfresh]
      refine (hA.congr fun p hp => hsame p (List.mem_append_left _ hp)).append ?_
      rw [Shows, List.map_cons, List.map_cons, plainNode_of_shape hins.self,
        hB.congr fun p hp => hsame p (List.mem_append_right _ hp)]
    · exact (congrArg Nat.succ hfresh).trans hins.fresh.symm
  | del snode =>
    obtain ⟨s', d, A, rest, hrun, rfl, hbelow, hfound, hdel, hinv'⟩ := hinv.delNode_small hstep.1 hsmall
    obtain rfl : (⟨s', dropRemoved (some d) w.live⟩ : World H) = w' := by
      have hexec := hstep.2
      rwa [Call.exec, hrun, Option.map_some, Option.some.injEq] at hexec
    obtain ⟨nodesA, nodesB, hnodes, hA, hB⟩ := hshows.exists_append
    obtain ⟨n, nodesB, rfl, hn, hB⟩ := List.map_eq_cons_iff.mp hB
    obtain ⟨hptr, hscore⟩ := score_of_plainNode hn.symm
    -- the scan for the address finds the node that the caller passes
    obtain ⟨m, hm, rfl⟩ : ∃ m ∈ l.nodes, m.ptr = snode := by
      rw [← List.mem_map, hshows.map_ptr]
      exact hinv.tracks.perm.mem_iff.mp hstep.1
    have hfind : (l.nodes.find? fun n => n.ptr = m.ptr).map PlainNode.mScore = some (score w.list.heap m.ptr) := by
      obtain ⟨m', hm'⟩ : ∃ m', (l.nodes.find? fun n => n.ptr = m.ptr) = some m' :=
        Option.isSome_iff_exists.mp (List.find?_isSome.mpr ⟨m, hm, decide_eq_true rfl⟩)
      have hptr' : m'.ptr = m.ptr := by
        have hfound := List.find?_some hm'
        exact of_decide_eq_true hfound
      rw [hm', Option.map_some, (hshows.mem (List.mem_of_find?_eq_some hm')).2, hptr']
    have hexec : l.exec (Call.del m.ptr : Call H).plain = ({ l with nodes := nodesA ++ nodesB }, some d) := by
      rw [Call.plain, PlainList.exec]
      obtain ⟨m', hm', hscore'⟩ := Option.map_eq_some_iff.mp hfind
      rw [hm', Option.map_some, Option.getD_some, hscore', ← hptr]
      exact delScore (hscore.trans hfound) (fun a ha => (hA.mem ha).2 ▸ hbelow _ (hA.mem ha).1) hnodes
    rw [hexec]
    refine ⟨by rw [Call.answer, hrun]; rfl, ⟨_, hinv', ?_⟩, hfresh.trans hdel.fresh.symm⟩
    refine (hA.append hB).congr fun p hp => hdel.others p fun heq => ?_
    exact hinv.tracks.represents.not_mem_rest (heq ▸ List.mem_cons_of_mem _ hp)
  | delHead =>
    have hmin := hinv.tracks.represents.getMinNode_eq
    have hexec := hstep.2
    cases order with
    | nil =>
      have hnodes : l.nodes = [] := List.map_eq_nil_iff.mp hshows
      have hrun : delHeadNode w.list = some (w.list, none) := by
        rw [delHeadNode, hmin]
        rfl
      rw [Call.exec, hrun, Option.map_some, Option.some.injEq] at hexec
      change (⟨w.list, dropRemoved none w.live⟩ : World H) = w' at hexec
      rw [dropRemoved_none] at hexec
      subst hexec
      rw [Call.answer, hrun, Call.plain, PlainList.exec, hnodes]
      exact ⟨rfl, ⟨[], hinv, rfl⟩, hfresh⟩
    | cons first rest =>
      have hfirst : Small w.list.heap first := hsmall first (by rw [hmin]; rfl)
      have hlive : first ∈ w.live.map Prod.fst := hinv.front_live rfl
      obtain ⟨s', d, A, B, hrun, horder, hbelow, -, hdel, hinv'⟩ := hinv.delNode_small hlive hfirst
      -- no node in front of the first one has a smaller score
      obtain rfl : A = [] := List.eq_nil_iff_forall_not_mem.mpr fun a ha => by
        have hlt := hbelow a ha
        have hsmallA : Small w.list.heap a := lt_trans (BitVec.lt_def.mp hlt) hfirst
        have hle := hinv.front_le rfl (hinv.tracks.perm.mem_iff.mpr (horder ▸ List.mem_append_left _ ha)) hsmallA
        exact BitVec.not_lt.mpr hle hlt
      obtain ⟨rfl, rfl⟩ := List.cons.inj horder
      obtain ⟨n, nodes, hnodes, hn, hrest⟩ := List.map_eq_cons_iff.mp hshows
      have hrun' : delHeadNode w.list = some (s', some first) := by
        rw [delHeadNode, hmin]
        exact hrun
      rw [Call.exec, hrun', Option.map_some, Option.some.injEq] at hexec
      subst hexec
      rw [Call.answer, hrun', Call.plain, PlainList.exec, hnodes]
      refine ⟨?_, ⟨rest, hinv', ?_⟩, hfresh.trans hdel.fresh.symm⟩
      · rw [Option.map_some, List.head?_cons, Option.map_some, (score_of_plainNode hn.symm).1]
      · refine Shows.congr hrest fun p hp => hdel.others p fun heq => ?_
        exact (List.nodup_cons.mp (List.nodup_cons.mp hinv.tracks.represents.nodup).2).1 (heq ▸ hp)

/-- Two empty lists. -/
theorem new (printfHello : H) : Mirrors (World.new printfHello) (PlainList.new H) := by
  have hinit : Reachable printfHello (World.new printfHello) := .init rfl
  obtain ⟨order, hinv⟩ := hinit.orderInv
  obtain rfl := (tracks_new printfHello).bottomLevel_iff.mp hinv.tracks.bottomLevel
  exact ⟨⟨[], hinv, rfl⟩, rfl⟩

/-- A run of the skip list is the run of the plain list. -/
theorem run (h : Mirrors w l) {calls : List (Call H)} (hrun : Run (Restrict Step SmallVictim) w calls w') :
    answers w calls = some (l.run (calls.map Call.plain)).2 ∧ Mirrors w' (l.run (calls.map Call.plain)).1 := by
  induction hrun generalizing l with
  | nil => exact ⟨rfl, h⟩
  | cons hstep _ ih =>
    obtain ⟨hanswer, hnext⟩ := h.exec hstep.1 hstep.2
    obtain ⟨hlater, hlast⟩ := ih hnext
    refine ⟨?_, hlast⟩
    rw [answers, hanswer, Option.bind_some, hstep.1.2, Option.bind_some, hlater, Option.map_some]
    rfl

end Mirrors

/-- In every run of calls on a new list in which the deleted timers have small scores, the skip list gives the answers
of the plain list, and its bottom level holds the nodes of the plain list, in their order, with their scores and
handlers. -/
theorem refines_plainList {calls : List (Call H)}
    (h : Run (Restrict Step SmallVictim) (World.new printfHello) calls w) :
    answers (World.new printfHello) calls = some ((PlainList.new H).run (calls.map Call.plain)).2 ∧
      ∃ order, BottomLevel w.list order ∧
        Shows w.list.heap order ((PlainList.new H).run (calls.map Call.plain)).1.nodes := by
  obtain ⟨hanswers, ⟨order, hinv, hshows⟩, -⟩ := (Mirrors.new printfHello).run h
  exact ⟨hanswers, order, hinv.tracks.bottomLevel, hshows⟩

/-- Five calls with ties, a large score and three heights. -/
theorem refines_plainList_run : ∃ w : World Bool,
    answers (World.new false) [.insert 7 1 true, .insert 0x80000000 3 false, .insert 7 2 false, .del 1, .delHead] =
        some [some 1, some 2, some 3, some 3, some 1] ∧
      (answers (World.new false) [.insert 7 1 true, .insert 0x80000000 3 false, .insert 7 2 false, .del 1, .delHead] =
        some ((PlainList.new Bool).run
          [.insert 7 true, .insert 0x80000000 false, .insert 7 false, .del 1, .delHead]).2 ∧
      ∃ order, BottomLevel w.list order ∧ Shows w.list.heap order ((PlainList.new Bool).run
        [.insert 7 true, .insert 0x80000000 false, .insert 7 false, .del 1, .delHead]).1.nodes) := by
  have hrun : (replay (guard SmallVictim Call.check) (World.new false) [.insert 7 1 true, .insert 0x80000000 3 false,
      .insert 7 2 false, .del 1, .delHead]).isSome := by decide
  obtain ⟨w, hw⟩ := Option.isSome_iff_exists.mp hrun
  exact ⟨w, by decide, refines_plainList (Run.replay_guard (fun _ _ _ => Call.step_of_check) hw)⟩

/-- Runs of the same calls give the same answers and the same timers, whatever heights were drawn. -/
theorem heights_invisible {calls calls' : List (Call H)} (hsame : calls.map Call.plain = calls'.map Call.plain)
    (h : Run (Restrict Step SmallVictim) (World.new printfHello) calls w)
    (h' : Run (Restrict Step SmallVictim) (World.new printfHello) calls' w') :
    answers (World.new printfHello) calls = answers (World.new printfHello) calls' ∧
      ∃ order, BottomLevel w.list order ∧ BottomLevel w'.list order := by
  obtain ⟨hanswers, ⟨order, hinv, hshows⟩, -⟩ := (Mirrors.new printfHello).run h
  obtain ⟨hanswers', ⟨order', hinv', hshows'⟩, -⟩ := (Mirrors.new printfHello).run h'
  rw [← hsame] at hanswers' hshows'
  obtain rfl : order = order' := hshows.map_ptr.symm.trans hshows'.map_ptr
  exact ⟨hanswers.trans hanswers'.symm, order, hinv.tracks.bottomLevel, hinv'.tracks.bottomLevel⟩

/-- The cancellation of a timer with a large score finds it or not, depending on the heights. -/
theorem large_del_depends_on_heights :
    answers (World.new ()) [.insert 0x80000000 1 (), .insert 0x80000003 1 (), .del 2] = some [some 1, some 2, some 2] ∧
      answers (World.new ()) [.insert 0x80000000 2 (), .insert 0x80000003 1 (), .del 2] =
        some [some 1, some 2, none] := by
  decide

end CppProject.SkipListTimer
