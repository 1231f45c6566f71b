import CppProject.SkipListTimer.Order

/-!
# Cancelling a timer

`Del_timer` deletes the first node of the bottom level whose score equals that of the node it
is given. As long as the list is sorted and scores are stored as requested, nodes with equal
scores are in the order of the record, so the deleted node is the newest live node with that
score: the node of the caller only if no timer inserted after it is due at the same time.
-/

namespace CppProject.SkipListTimer

open PointerChain Transition

variable {H : Type*} {w w' : World H} {order : List NodePtr}

/-- Scores are stored as requested. -/
def SmallScore (_ : World H) : Call H → Prop
  | .insert requested _ _ => requested.toNat < 2 ^ 31
  | _ => True

instance (w : World H) : (call : Call H) → Decidable (SmallScore w call)
  | .insert requested _ _ => inferInstanceAs (Decidable (requested.toNat < 2 ^ 31))
  | .del _ => inferInstanceAs (Decidable True)
  | .delHead => inferInstanceAs (Decidable True)

/-- Small scores are stored as they are. -/
theorem SmallScore.storedInOrder {call : Call H} (h : SmallScore w call) : StoredInOrder w call := by
  cases call with
  | insert => exact Or.inl h
  | del => trivial
  | delHead => trivial

/-- A small score is stored as the search compares it. -/
theorem stored_eq_target {requested : BitVec 32} (h : requested.toNat < 2 ^ 31) :
    requested.signExtend 64 = requested.setWidth 64 := by
  apply BitVec.eq_of_toNat_eq
  rw [toNat_stored, if_pos h, toNat_target]

/-- The nodes with a given score. -/
def withScore (heap : Heap H) (c : BitVec 64) (nodes : List NodePtr) : List NodePtr :=
  nodes.filter fun p => decide (score heap p = c)

/-- The timers of a score in two parts. -/
theorem withScore_append (heap : Heap H) (c : BitVec 64) (A B : List NodePtr) :
    withScore heap c (A ++ B) = withScore heap c A ++ withScore heap c B :=
  List.filter_append _ _

/-- A timer has its own score. -/
theorem withScore_cons_self (heap : Heap H) (p : NodePtr) (nodes : List NodePtr) :
    withScore heap (score heap p) (p :: nodes) = p :: withScore heap (score heap p) nodes :=
  List.filter_cons_of_pos (by simp)

/-- A timer does not have another score. -/
theorem withScore_cons_of_ne {heap : Heap H} {c : BitVec 64} {p : NodePtr} (h : score heap p ≠ c)
    (nodes : List NodePtr) : withScore heap c (p :: nodes) = withScore heap c nodes :=
  List.filter_cons_of_neg (by simpa using h)

/-- Smaller scores are different ones. -/
theorem withScore_eq_nil {heap : Heap H} {c : BitVec 64} {nodes : List NodePtr}
    (h : ∀ p ∈ nodes, score heap p < c) : withScore heap c nodes = [] := by
  refine List.filter_eq_nil_iff.mpr fun p hp => ?_
  have hlt := h p hp
  rw [decide_eq_true_eq]
  intro heq
  rw [heq, BitVec.lt_def] at hlt
  omega

/-- Only the scores matter. -/
theorem withScore_congr {heap heap' : Heap H} (c : BitVec 64) {nodes : List NodePtr}
    (h : ∀ p ∈ nodes, score heap' p = score heap p) :
    withScore heap' c nodes = withScore heap c nodes :=
  List.filter_congr fun p hp => by rw [h p hp]

/-- Nodes with equal scores are in the order of the record, newest first. -/
def NewestFirst (w : World H) (order : List NodePtr) : Prop :=
  ∀ c, withScore w.list.heap c order = withScore w.list.heap c (w.live.map Prod.fst)

/-- A small insertion puts the new node ahead of the nodes with its score. -/
theorem NewestFirst.insert {A B : List NodePtr} (h : NewestFirst w (A ++ B))
    (htracks : Tracks w (A ++ B)) {s' : SkipList H} {requested : BitVec 32} {newlevel : ℕ} {handler : H}
    (hbelow : ∀ a ∈ A, score w.list.heap a < requested.signExtend 64)
    (hins : Inserted w.list s' requested newlevel handler) :
    NewestFirst ⟨s', (w.list.fresh, newlevel) :: w.live⟩ (A ++ w.list.fresh :: B) := by
  have hfresh : w.list.fresh ∉ A ++ B := fun hmem =>
    htracks.represents.fresh_not_mem (List.mem_cons_of_mem _ hmem)
  have hsame : ∀ p ∈ A ++ B, score s'.heap p = score w.list.heap p := fun p hp =>
    hins.score_of_ne fun heq => hfresh (heq ▸ hp)
  intro c
  have hlive : withScore s'.heap c (w.live.map Prod.fst) = withScore s'.heap c (A ++ B) := by
    rw [withScore_congr c hsame, h c]
    exact withScore_congr c fun p hp => hsame p (htracks.perm.mem_iff.mp hp)
  change withScore s'.heap c (A ++ w.list.fresh :: B) =
    withScore s'.heap c (w.list.fresh :: w.live.map Prod.fst)
  by_cases hc : score s'.heap w.list.fresh = c
  · -- Everything behind the split has a smaller score.
    have hnil : withScore s'.heap c A = [] := withScore_eq_nil fun a ha => by
      rw [hsame a (List.mem_append_left _ ha), ← hc, hins.score_self]
      exact hbelow a ha
    subst hc
    rw [withScore_append, hnil, List.nil_append, withScore_cons_self, withScore_cons_self, hlive,
      withScore_append, hnil, List.nil_append]
  · rw [withScore_append, withScore_cons_of_ne hc, withScore_cons_of_ne hc, hlive, withScore_append]

/-- A deletion keeps the order among the others. -/
theorem NewestFirst.delete {A rest : List NodePtr} {d : NodePtr} (h : NewestFirst w (A ++ d :: rest))
    (htracks : Tracks w (A ++ d :: rest)) {s' : SkipList H} (hdel : Deleted w.list s' d) :
    NewestFirst ⟨s', dropRemoved (some d) w.live⟩ (A ++ rest) := by
  have hsame : ∀ nodes : List NodePtr, ∀ c, withScore s'.heap c (nodes.filter (· ≠ d)) =
      (withScore w.list.heap c nodes).filter (· ≠ d) := fun nodes c => by
    rw [withScore_congr c fun p hp => hdel.score_of_ne (by simpa using (List.mem_filter.mp hp).2),
      withScore, withScore, List.filter_comm]
  intro c
  rw [map_fst_dropRemoved, ← htracks.represents.filter_ne, hsame, hsame, h c]

/-- In every run with small scores the ties are in the order of the record. -/
theorem Reachable.newestFirst {printfHello : H}
    (h : Transition.Reachable (· = World.new printfHello) (Restrict Step SmallScore) w) :
    ∃ order, Tracks w order ∧ Sorted w.list.heap order ∧ NewestFirst w order := by
  have hsorted : ∀ w : World H,
      Transition.Reachable (· = World.new printfHello) (Restrict Step SmallScore) w →
      ∃ order, Tracks w order ∧ AllStored w.list.heap order ∧ Sorted w.list.heap order :=
    fun w hw => Reachable.sorted (hw.mono fun _ _ _ hstep => ⟨hstep.1, hstep.2.storedInOrder⟩)
  have hties : ∃ order, Tracks w order ∧ NewestFirst w order := by
    refine Transition.Reachable.invariant_of (P := fun w => ∃ order, Tracks w order ∧ NewestFirst w order)
      hsorted (fun w hw => ?_) (fun w call w' hknown hw hstep => ?_) h
    · exact ⟨[], hw ▸ tracks_new printfHello, fun c => by subst hw; rfl⟩
    · obtain ⟨order, htracks, hties⟩ := hw
      obtain ⟨order₀, htracks₀, -, hsorted⟩ := hknown
      obtain rfl : order₀ = order := htracks.bottomLevel_iff.mp htracks₀.bottomLevel
      obtain ⟨order', heffect, htracks'⟩ := htracks.step hstep.1
      refine ⟨order', htracks', ?_⟩
      cases heffect with
      | @inserted A B requested newlevel handler x temp s' hsearch hins =>
        refine hties.insert htracks (fun a ha => ?_) hins
        rw [stored_eq_target hstep.2]
        exact (hsearch.bounds htracks.represents hsorted).1 a ha
      | @deleted A rest call snode d x temp s' hvictim hsearch hfound hdel =>
        exact hties.delete htracks hdel
      | missed => exact hties
      | empty => exact hties
  obtain ⟨order, htracks, hties⟩ := hties
  obtain ⟨order₀, htracks₀, -, hs⟩ := hsorted w h
  obtain rfl : order₀ = order := htracks.bottomLevel_iff.mp htracks₀.bottomLevel
  exact ⟨order₀, htracks, hs, hties⟩

/-- The most recently inserted live node with the score of `p`. -/
def newestTie (w : World H) (p : NodePtr) : Option NodePtr :=
  (w.live.map Prod.fst).find? fun q => decide (score w.list.heap q = score w.list.heap p)

/-- `Del_timer` deletes the newest live node with the score of its argument, and nothing else. -/
theorem delTimer_newestTie (htracks : Tracks w order) (hsorted : Sorted w.list.heap order)
    (hties : NewestFirst w order) {p : NodePtr} (hp : p ∈ w.live.map Prod.fst) :
    ∃ s' d, delTimer w.list p = some (s', some d) ∧ newestTie w p = some d ∧ Deleted w.list s' d ∧
      BottomLevel s' (order.erase d) := by
  obtain ⟨s', removed, x, temp, A, B, hrun, rfl, hsearch, hcase⟩ :=
    htracks.represents.delNode_spec (htracks.isSome hp)
  obtain ⟨hbelow, -⟩ := hsearch.bounds htracks.represents hsorted
  obtain ⟨first, rest', rfl, hscore⟩ := hsearch.found htracks.represents hsorted (htracks.perm.mem_iff.mp hp)
  rcases hcase with ⟨d, rest, hB, hfound, rfl, hdel, hrep⟩ | ⟨rfl, rfl, hmiss⟩
  · obtain ⟨rfl, rfl⟩ := List.cons.inj hB
    refine ⟨s', first, hrun, ?_, hdel, ?_⟩
    · rw [newestTie, ← List.head?_filter, ← withScore, ← hties, withScore_append,
        withScore_eq_nil hbelow, List.nil_append, ← hfound, withScore_cons_self, List.head?_cons]
    · have hdA : first ∉ A := fun hmem =>
        htracks.represents.not_mem_rest (List.mem_cons_of_mem _ (List.mem_append_left _ hmem))
      rw [List.erase_append_right _ hdA, List.erase_cons_head]
      exact hrep.bottomLevel
  · exact absurd hscore (hmiss first rfl)

/-- `Del_timer(p)` removes exactly the node `p` from the bottom level and frees it; every other
live node stays on the heap. -/
structure CancelsExactly (w : World H) (p : NodePtr) (s' : SkipList H) : Prop where
  freed : delTimer w.list p = some (s', some p)
  gone : s'.heap p = none
  bottom : ∃ order, BottomLevel w.list order ∧ BottomLevel s' (order.erase p)
  kept : ∀ q ∈ w.live.map Prod.fst, q ≠ p → (s'.heap q).isSome

/-- In every run with small scores, cancelling a live timer removes exactly it if and only if it
is the most recently inserted one with its score. -/
theorem cancelsExactly_iff_newestTie {printfHello : H}
    (h : Transition.Reachable (· = World.new printfHello) (Restrict Step SmallScore) w) {p : NodePtr}
    (hp : p ∈ w.live.map Prod.fst) : (∃ s', CancelsExactly w p s') ↔ newestTie w p = some p := by
  obtain ⟨order, htracks, hsorted, hties⟩ := Reachable.newestFirst h
  obtain ⟨s', d, hrun, hnewest, hdel, hbottom⟩ := delTimer_newestTie htracks hsorted hties hp
  rw [hnewest, Option.some.injEq]
  constructor
  · intro ⟨s'', hcancel⟩
    have hsame := hrun.symm.trans hcancel.freed
    simp only [Option.some.injEq, Prod.mk.injEq] at hsame
    exact hsame.2
  · intro heq
    subst heq
    exact ⟨s', hrun, hdel.self, ⟨order, htracks.bottomLevel, hbottom⟩, fun q hq hne =>
      (hdel.isSome_iff q).mpr ⟨hne, htracks.isSome hq⟩⟩

/-- A run with two timers of one score, the newer of which is cancelled as it should be. -/
theorem cancelsExactly_newer : ∃ w : World Unit, w.live.map Prod.fst = [3, 2, 1] ∧
    newestTie w 2 = some 2 ∧ ((∃ s', CancelsExactly w 2 s') ↔ newestTie w 2 = some 2) := by
  have hlive : (Transition.replay (Transition.guard SmallScore Call.check) (World.new ())
      [.insert 7 1 (), .insert 7 2 (), .insert 9 1 ()]).map
      (fun w => (w.live.map Prod.fst, newestTie w 2)) = some ([3, 2, 1], some 2) := by decide
  obtain ⟨w, hrun, hw⟩ := Option.map_eq_some_iff.mp hlive
  obtain ⟨hlive, hnewest⟩ := Prod.mk.inj hw
  exact ⟨w, hlive, hnewest, cancelsExactly_iff_newestTie
    (Transition.Reachable.replay_guard (fun _ _ _ => Call.step_of_check) (.init rfl) hrun)
    (by simp [hlive])⟩

/-- Of two timers due at the same time, cancelling the older one deletes the newer one. -/
theorem cancel_older_deletes_newer : ∃ w s',
    runCalls () [.insert 10100 1 (), .insert 10100 1 ()] = some w ∧ BottomLevel w.list [2, 1] ∧
      1 ∈ w.live.map Prod.fst ∧ delTimer w.list 1 = some (s', some 2) ∧ BottomLevel s' [1] ∧
      ¬ ∃ s', CancelsExactly w 1 s' := by
  have hrun : ((runCalls () [.insert 10100 1 (), .insert 10100 1 ()]).bind fun w =>
      (delTimer w.list 1).map fun (s', removed) => decide (BottomLevel w.list [2, 1] ∧
        1 ∈ w.live.map Prod.fst ∧ removed = some 2 ∧ BottomLevel s' [1])) = some true := by decide
  obtain ⟨w, hrun, hw⟩ := Option.bind_eq_some_iff.mp hrun
  obtain ⟨⟨s', removed⟩, hdel, hw⟩ := Option.map_eq_some_iff.mp hw
  obtain ⟨hbottom, hlive, rfl, hafter⟩ := of_decide_eq_true hw
  refine ⟨w, s', hrun, hbottom, hlive, hdel, hafter, fun ⟨s'', hcancel⟩ => ?_⟩
  have hsame := hdel.symm.trans hcancel.freed
  simp at hsame

end CppProject.SkipListTimer
