import CppProject.SkipListTimer.Structure

/-!
# The order of the timers

A score is compared as requested and stored sign-extended, so the two agree below `2 ^ 31`
only: a larger one sorts behind every smaller timer but, being stored far above `2 ^ 32`, is
never passed by a later search of an insertion. A new timer with a large score is therefore
placed before all timers with large scores.

The bottom level stays sorted exactly as long as no insertion with a large score follows one
with a larger one. Below `2 ^ 31` it is always sorted, with ties in the order of the record,
newest first.
-/

namespace CppProject.SkipListTimer

open PointerChain Transition

variable {H : Type*} {w w' : World H} {order A B : List NodePtr}

/-- The sequence of nodes on level 0. -/
def BottomLevel (s : SkipList H) (order : List NodePtr) : Prop :=
  Chain (next s.heap 0) (next s.heap 0 s.mHeader) order

instance (s : SkipList H) : (order : List NodePtr) → Decidable (BottomLevel s order) :=
  fun _ => inferInstanceAs (Decidable (Chain _ _ _))

/-- Nondecreasing in `GetScore()`. -/
def Sorted (heap : Heap H) (order : List NodePtr) : Prop :=
  order.Pairwise fun p q => score heap p ≤ score heap q

/-- The represented sequence is the bottom level. -/
theorem Represents.bottomLevel {s : SkipList H} (h : Represents s order) : BottomLevel s order := by
  have hchain := h.chain 0 (by decide)
  rw [h.onLevel_header (by decide), h.onLevel_zero (List.Subset.refl _)] at hchain
  exact hchain.2

/-- The order is that of the bottom level. -/
theorem Tracks.bottomLevel (h : Tracks w order) : BottomLevel w.list order := h.represents.bottomLevel

/-- There is no other order. -/
theorem Tracks.bottomLevel_iff (h : Tracks w order) {nodes : List NodePtr} :
    BottomLevel w.list nodes ↔ nodes = order :=
  ⟨fun hnodes => hnodes.unique h.bottomLevel, fun heq => heq ▸ h.bottomLevel⟩

/-- The search ends behind the last node it passes. -/
theorem Search.getLast?_eq {heap : Heap H} {target : BitVec 64} {header x : NodePtr} {levels : ℕ} {temp : Temp}
    (hsearch : Search heap target header levels A B x temp) (hne : A ≠ []) : A.getLast? = some x := by
  have hlast := hsearch.last
  rwa [List.getLast?_cons_of_ne_nil hne] at hlast

/-- The search stops in front of a node that is not below its target. -/
theorem Search.le_front {s : SkipList H} {front : NodePtr} (h : Represents s (A ++ front :: B))
    {target : BitVec 64} {x : NodePtr} {temp : Temp}
    (hsearch : Search s.heap target s.mHeader s.mLevel A (front :: B) x temp) : target ≤ score s.heap front := by
  apply BitVec.not_lt.mp
  apply hsearch.stop 0 h.level_bounds.1
  rw [h.onLevel_zero (by simp), List.head?_cons]

/-- A node's score is the score of the first node that is not below it, if this one is not above it. -/
theorem exists_front_eq {heap : Heap H} {p : NodePtr} (hbelow : ∀ a ∈ A, score heap a < score heap p)
    (habove : ∀ b ∈ B, score heap p ≤ score heap b) (hp : p ∈ A ++ B)
    (hfront : ∀ d rest, B = d :: rest → p ∈ B → score heap d ≤ score heap p) :
    ∃ d rest, B = d :: rest ∧ score heap d = score heap p := by
  have hpB : p ∈ B := (List.mem_append.mp hp).resolve_left fun hpA => by
    have hlt := hbelow p hpA
    rw [BitVec.lt_def] at hlt
    omega
  obtain ⟨d, rest, rfl⟩ := List.exists_cons_of_ne_nil (List.ne_nil_of_mem hpB)
  refine ⟨d, rest, rfl, ?_⟩
  have hge := habove d List.mem_cons_self
  have hle := hfront d rest rfl hpB
  apply BitVec.eq_of_toNat_eq
  rw [BitVec.le_def] at hge hle
  omega

/-- In a sorted sequence a search separates the scores below its target from the others. -/
theorem Search.bounds {s : SkipList H} (h : Represents s (A ++ B)) (hsorted : Sorted s.heap (A ++ B))
    {target : BitVec 64} {x : NodePtr} {temp : Temp}
    (hsearch : Search s.heap target s.mHeader s.mLevel A B x temp) :
    (∀ a ∈ A, score s.heap a < target) ∧ ∀ b ∈ B, target ≤ score s.heap b := by
  obtain ⟨hA, hB, -⟩ := List.pairwise_append.mp hsorted
  constructor
  · intro a ha
    rcases hsearch.passed with rfl | hpassed
    · exact absurd ha List.not_mem_nil
    · -- The last node behind the split is below the target, and the sequence is sorted up to it.
      obtain ⟨init, rfl⟩ := List.getLast?_eq_some_iff.mp (hsearch.getLast?_eq (List.ne_nil_of_mem ha))
      rcases List.mem_append.mp ha with ha | ha
      · have hle := (List.pairwise_append.mp hA).2.2 a ha x (by simp)
        rw [BitVec.le_def] at hle
        rw [BitVec.lt_def] at hpassed ⊢
        omega
      · rwa [List.mem_singleton.mp ha]
  · intro b hb
    cases B with
    | nil => exact absurd hb List.not_mem_nil
    | cons front rest =>
      have hfront : target ≤ score s.heap front := hsearch.le_front h
      rcases List.mem_cons.mp hb with rfl | hb
      · exact hfront
      · exact BitVec.le_trans hfront ((List.pairwise_cons.mp hB).1 b hb)

/-- In a list in order, the search for the score of a node ends in front of a node with that score. -/
theorem Search.found {s : SkipList H} (h : Represents s (A ++ B)) (hsorted : Sorted s.heap (A ++ B))
    {p x : NodePtr} {temp : Temp} (hsearch : Search s.heap (score s.heap p) s.mHeader s.mLevel A B x temp)
    (hp : p ∈ A ++ B) : ∃ d rest, B = d :: rest ∧ score s.heap d = score s.heap p := by
  obtain ⟨hbelow, habove⟩ := hsearch.bounds h hsorted
  refine exists_front_eq hbelow habove hp fun d rest hB hpB => ?_
  subst hB
  rcases List.mem_cons.mp hpB with rfl | hrest
  · exact BitVec.le_refl _
  · exact (List.pairwise_cons.mp (List.pairwise_append.mp hsorted).2.1).1 p hrest

/-- Scores of a list of nodes that a call leaves alone keep their order. -/
theorem Sorted.congr {heap heap' : Heap H} (h : Sorted heap order)
    (hsame : ∀ p ∈ order, score heap' p = score heap p) : Sorted heap' order :=
  h.imp_of_mem fun hp hq hle => by rw [hsame _ hp, hsame _ hq]; exact hle

/-- A deletion keeps the order. -/
theorem Sorted.delete {s s' : SkipList H} {d : NodePtr} (hsorted : Sorted s.heap (A ++ d :: B))
    (h : Represents s (A ++ d :: B)) (hdel : Deleted s s' d) : Sorted s'.heap (A ++ B) := by
  have hsub : Sorted s.heap (A ++ B) :=
    hsorted.sublist (List.Sublist.append_left (List.sublist_cons_self d B) A)
  refine hsub.congr fun p hp => hdel.score_of_ne fun heq => ?_
  exact h.not_mem_rest (List.mem_cons_of_mem _ (heq ▸ hp))

/-- An insertion into a sorted sequence keeps it sorted exactly when the stored score fits. -/
theorem Sorted.insert_iff {s s' : SkipList H} (hsorted : Sorted s.heap (A ++ B))
    (h : Represents s (A ++ B)) {requested : BitVec 32} {newlevel : ℕ} {handler : H}
    (hins : Inserted s s' requested newlevel handler) :
    Sorted s'.heap (A ++ s.fresh :: B) ↔
      (∀ a ∈ A, score s.heap a ≤ requested.signExtend 64) ∧
        ∀ b ∈ B, requested.signExtend 64 ≤ score s.heap b := by
  have hsame : ∀ p ∈ A ++ B, score s'.heap p = score s.heap p := fun p hp =>
    hins.score_of_ne fun heq => h.fresh_not_mem (heq ▸ List.mem_cons_of_mem _ hp)
  obtain ⟨hA, hB, hAB⟩ := List.pairwise_append.mp (hsorted.congr hsame)
  rw [Sorted, List.pairwise_append, List.pairwise_cons]
  simp only [hA, hB, true_and, and_true, List.forall_mem_cons, hins.score_self]
  have hsameA : ∀ a ∈ A, score s'.heap a = score s.heap a := fun a ha => hsame a (by simp [ha])
  have hsameB : ∀ b ∈ B, score s'.heap b = score s.heap b := fun b hb => hsame b (by simp [hb])
  constructor
  · intro ⟨hfresh, hbefore⟩
    exact ⟨fun a ha => hsameA a ha ▸ (hbefore a ha).1, fun b hb => hsameB b hb ▸ hfresh b hb⟩
  · intro ⟨hbefore, hfresh⟩
    refine ⟨fun b hb => ?_, fun a ha => ⟨?_, fun b hb => hAB a ha b hb⟩⟩
    · rw [hsameB b hb]
      exact hfresh b hb
    · rw [hsameA a ha]
      exact hbefore a ha

/-! ## Stored and requested scores -/

/-- The stored score of a requested one. -/
theorem toNat_stored (requested : BitVec 32) :
    (requested.signExtend 64).toNat =
      if requested.toNat < 2 ^ 31 then requested.toNat else requested.toNat + (2 ^ 64 - 2 ^ 32) := by
  have hlt := requested.isLt
  rw [BitVec.toNat_signExtend, BitVec.toNat_setWidth, BitVec.msb_eq_decide,
    Nat.mod_eq_of_lt (by omega)]
  by_cases h : requested.toNat < 2 ^ 31
  · simp only [if_pos h, decide_eq_true_eq]
    rw [if_neg (by omega)]
    omega
  · simp only [if_neg h, decide_eq_true_eq]
    rw [if_pos (by omega)]

/-- The target of an insertion's search. -/
theorem toNat_target (requested : BitVec 32) :
    (requested.setWidth 64).toNat = requested.toNat := by
  have hlt := requested.isLt
  rw [BitVec.toNat_setWidth, Nat.mod_eq_of_lt (by omega)]

/-- Every score in the list is a stored score. -/
def AllStored (heap : Heap H) (order : List NodePtr) : Prop :=
  ∀ p ∈ order, ∃ requested : BitVec 32, score heap p = requested.signExtend 64

/-- Scores only enter the list through the constructor. -/
theorem Effect.allStored (h : Tracks w order) {call : Call H} {order' : List NodePtr}
    (heffect : Effect w order call w' order') (hstored : AllStored w.list.heap order) :
    AllStored w'.list.heap order' := by
  intro p hp
  cases heffect with
  | inserted hsearch hins =>
    by_cases heq : p = w.list.fresh
    · exact ⟨_, heq ▸ hins.score_self⟩
    · rw [hins.score_of_ne heq]
      exact hstored p (by simp only [List.mem_append, List.mem_cons] at hp ⊢; tauto)
  | @deleted A rest call snode d x temp s' hvictim hsearch hfound hdel =>
    have hne : p ≠ d := fun heq => h.represents.not_mem_rest (List.mem_cons_of_mem _ (heq ▸ hp))
    rw [hdel.score_of_ne hne]
    exact hstored p (by simp only [List.mem_append, List.mem_cons] at hp ⊢; tauto)
  | missed => exact hstored p hp
  | empty => exact hstored p hp

/-! ## When the list stays sorted -/

/-- The timers are in order, and `GetMinNode` returns a first one to expire, if there is any. -/
structure TimerOrder (w : World H) : Prop where
  sorted : ∃ order, BottomLevel w.list order ∧ Sorted w.list.heap order
  least : ∃ first, getMinNode w.list = some first ∧ (first = none ↔ w.live = []) ∧
    ∀ p, first = some p → p ∈ w.live.map Prod.fst ∧
      ∀ q ∈ w.live.map Prod.fst, score w.list.heap p ≤ score w.list.heap q

/-- Sortedness is all there is to it: a sorted list has its least score in front. -/
theorem Tracks.timerOrder_iff (h : Tracks w order) : TimerOrder w ↔ Sorted w.list.heap order := by
  constructor
  · intro horder
    obtain ⟨nodes, hnodes, hsorted⟩ := horder.sorted
    exact h.bottomLevel_iff.mp hnodes ▸ hsorted
  · intro hsorted
    refine ⟨⟨order, h.bottomLevel, hsorted⟩, order.head?, h.represents.getMinNode_eq, ?_, ?_⟩
    · rw [List.head?_eq_none_iff, ← List.map_eq_nil_iff (f := Prod.fst) (l := w.live)]
      constructor
      · intro hnil
        exact (hnil ▸ h.perm).eq_nil
      · intro hnil
        exact (hnil ▸ h.perm.symm).eq_nil
    · intro p hp
      obtain ⟨rest, rfl⟩ := List.head?_eq_some_iff.mp hp
      refine ⟨h.perm.mem_iff.mpr List.mem_cons_self, fun q hq => ?_⟩
      rcases List.mem_cons.mp (h.perm.mem_iff.mp hq) with rfl | hq
      · exact BitVec.le_refl _
      · exact (List.pairwise_cons.mp hsorted).1 q hq

/-- An insertion does not put a score of at least `2 ^ 31` in front of a smaller such score. -/
def StoredInOrder (w : World H) : Call H → Prop
  | .insert requested _ _ => requested.toNat < 2 ^ 31 ∨
      ∀ p ∈ w.live.map Prod.fst, (score w.list.heap p).toNat < 2 ^ 31 ∨
        requested.signExtend 64 ≤ score w.list.heap p
  | _ => True

instance (w : World H) : (call : Call H) → Decidable (StoredInOrder w call)
  | .insert requested _ _ => inferInstanceAs (Decidable (requested.toNat < 2 ^ 31 ∨ _))
  | .del _ => inferInstanceAs (Decidable True)
  | .delHead => inferInstanceAs (Decidable True)

/-- A step from a sorted state leads to a sorted state exactly when it meets the condition. -/
theorem Effect.sorted_iff (h : Tracks w order) {call : Call H} {order' : List NodePtr}
    (heffect : Effect w order call w' order') (hstored : AllStored w.list.heap order)
    (hsorted : Sorted w.list.heap order) :
    Sorted w'.list.heap order' ↔ StoredInOrder w call := by
  cases heffect with
  | @inserted A B requested newlevel handler x temp s' hsearch hins =>
    obtain ⟨hbelow, habove⟩ := hsearch.bounds h.represents hsorted
    have hextended := toNat_stored requested
    have htarget := toNat_target requested
    have hlt := requested.isLt
    rw [hsorted.insert_iff h.represents hins, StoredInOrder]
    constructor
    · intro ⟨_, hB⟩
      refine Or.inr fun p hp => ?_
      rcases List.mem_append.mp (h.perm.mem_iff.mp hp) with hp | hp
      · -- Behind the split scores are below `2 ^ 32`; a stored score is then below `2 ^ 31`.
        obtain ⟨v, hv⟩ := hstored p (List.mem_append_left _ hp)
        have hpass := hbelow p hp
        have hvstored := toNat_stored v
        rw [BitVec.lt_def, htarget, hv] at hpass
        rw [hv]
        left
        split at hvstored <;> omega
      · exact Or.inr (hB p hp)
    · intro hcond
      constructor
      · intro a ha
        have hpass := hbelow a ha
        rw [BitVec.lt_def, htarget] at hpass
        rw [BitVec.le_def, hextended]
        split <;> omega
      · intro b hb
        have hstop := habove b hb
        rw [BitVec.le_def, htarget] at hstop
        by_cases hsmall : requested.toNat < 2 ^ 31
        · rw [BitVec.le_def, hextended, if_pos hsmall]
          exact hstop
        · have hlive := h.perm.mem_iff.mpr (List.mem_append_right _ hb)
          rcases hcond with hcond | hcond
          · exact absurd hcond hsmall
          · exact (hcond b hlive).resolve_left (by omega)
  | @deleted A rest call snode d x temp s' hvictim hsearch hfound hdel =>
    refine iff_of_true (hsorted.delete h.represents hdel) ?_
    cases call with
    | insert => exact absurd hvictim (by simp [Call.victim])
    | del => trivial
    | delHead => trivial
  | @missed A B call snode x temp hvictim hsearch hmiss =>
    refine iff_of_true hsorted ?_
    cases call with
    | insert => exact absurd hvictim (by simp [Call.victim])
    | del => trivial
    | delHead => trivial
  | empty => exact iff_of_true hsorted trivial

/-- In every run whose insertions all meet the condition, every state is sorted. -/
theorem Reachable.sorted {printfHello : H}
    (h : Transition.Reachable (· = World.new printfHello) (Restrict Step StoredInOrder) w) :
    ∃ order, Tracks w order ∧ AllStored w.list.heap order ∧ Sorted w.list.heap order := by
  refine Transition.Reachable.invariant
    (P := fun w => ∃ order, Tracks w order ∧ AllStored w.list.heap order ∧ Sorted w.list.heap order)
    (fun w hw => ?_) (fun w call w' hw hstep => ?_) h
  · exact ⟨[], hw ▸ tracks_new printfHello, by simp [AllStored], List.Pairwise.nil⟩
  · obtain ⟨order, htracks, hstored, hsorted⟩ := hw
    obtain ⟨order', heffect, htracks'⟩ := htracks.step hstep.1
    exact ⟨order', htracks', heffect.allStored htracks hstored,
      (heffect.sorted_iff htracks hstored hsorted).mpr hstep.2⟩

/-- In every run whose insertions all meet the condition, every state has its timers in order,
and the first step that does not meet it leads to a state that has not. -/
theorem timerOrder_of_storedInOrder {printfHello : H}
    (h : Transition.Reachable (· = World.new printfHello) (Restrict Step StoredInOrder) w) :
    TimerOrder w ∧ ∀ call w', Step w call w' → (TimerOrder w' ↔ StoredInOrder w call) := by
  obtain ⟨order, htracks, hstored, hsorted⟩ := Reachable.sorted h
  refine ⟨htracks.timerOrder_iff.mpr hsorted, fun call w' hstep => ?_⟩
  obtain ⟨order', heffect, htracks'⟩ := htracks.step hstep
  rw [htracks'.timerOrder_iff, heffect.sorted_iff htracks hstored hsorted]

/-- Large scores inserted in decreasing order, and a small one in front of them. -/
theorem timerOrder_of_decreasing : ∃ w : World Unit, w.live.map Prod.fst = [3, 2, 1] ∧
    (TimerOrder w ∧ ∀ call w', Step w call w' → (TimerOrder w' ↔ StoredInOrder w call)) := by
  have hlive : (Transition.replay (Transition.guard StoredInOrder Call.check) (World.new ())
      [.insert 0x80000005 1 (), .insert 0x80000001 2 (), .insert 100 1 ()]).map
      (fun w => w.live.map Prod.fst) = some [3, 2, 1] := by decide
  obtain ⟨w, hrun, hlive⟩ := Option.map_eq_some_iff.mp hlive
  exact ⟨w, hlive, timerOrder_of_storedInOrder
    (Transition.Reachable.replay_guard (fun _ _ _ => Call.step_of_check) (.init rfl) hrun)⟩

/-- Of two timers requested one millisecond apart the later one is placed first, and
`GetMinNode` returns it. -/
theorem later_timer_first : ∃ w : World Unit,
    runCalls () [.insert 0x80000000 1 (), .insert 0x80000001 1 ()] = some w ∧
      BottomLevel w.list [2, 1] ∧ getMinNode w.list = some (some 2) ∧
      score w.list.heap 1 < score w.list.heap 2 ∧ ¬ TimerOrder w := by
  have hrun : (runCalls () [.insert 0x80000000 1 (), .insert 0x80000001 1 ()]).map (fun w =>
      decide (BottomLevel w.list [2, 1] ∧ getMinNode w.list = some (some 2) ∧
        score w.list.heap 1 < score w.list.heap 2)) = some true := by decide
  obtain ⟨w, hrun, hw⟩ := Option.map_eq_some_iff.mp hrun
  obtain ⟨hbottom, hmin, hlt⟩ := of_decide_eq_true hw
  refine ⟨w, hrun, hbottom, hmin, hlt, fun horder => ?_⟩
  obtain ⟨order, htracks⟩ := (reachable_of_runCalls hrun).tracks
  have hsorted := htracks.timerOrder_iff.mp horder
  rw [← htracks.bottomLevel_iff.mp hbottom] at hsorted
  have hle := (List.pairwise_cons.mp hsorted).1 1 (by simp)
  rw [BitVec.le_def] at hle
  rw [BitVec.lt_def] at hlt
  omega

end CppProject.SkipListTimer
