import CppProject.SkipListTimer.Cancel
import Mathlib.Data.List.Sort

/-!
# The search agrees with a linear scan

On a list with its scores in order, whatever the heights of its nodes, an insertion changes the bottom
level as `List.orderedInsert` does and a deletion as `List.eraseP` does, and the predecessor a descent
records on a level is the last node there with a score below the target. The heights decide which links
are followed, and nothing else.
-/

namespace CppProject.SkipListTimer

open PointerChain

variable {H : Type*} {s s' t t' : SkipList H} {order A B : List NodePtr}

/-- The nodes linked on a level, in order. -/
def Level (s : SkipList H) (i : ℕ) (nodes : List NodePtr) : Prop :=
  Chain (next s.heap i) (next s.heap i s.mHeader) nodes

/-- The sequence of nodes on level 0, each with its `GetScore()`. -/
structure ScoredLevel (s : SkipList H) (seq : List (NodePtr × BitVec 64)) : Prop where
  bottom : BottomLevel s (seq.map Prod.fst)
  scores : ∀ e ∈ seq, getScore s.heap e.1 = some e.2

/-- The levels link one sequence of nodes, which is in the order of the scores. -/
structure WellSorted (s : SkipList H) (order : List NodePtr) : Prop where
  represents : Represents s order
  sorted : Sorted s.heap order

/-- The last node with a score below the target, or the header. -/
def lastBelow (s : SkipList H) (target : BitVec 64) (nodes : List NodePtr) : NodePtr :=
  ((nodes.filter fun p => decide (score s.heap p < target)).getLast?).getD s.mHeader

/-- The descent for a target ends with these predecessors in `temp`. -/
def RecordsLastBelow (s : SkipList H) (target : BitVec 64) : Prop :=
  ∃ x temp, descend s.heap target s.fuel s.mLevel s.mHeader (fun _ => none) = some (x, temp) ∧
    ∀ i < s.mLevel, ∀ nodes, Level s i nodes → temp i = some (lastBelow s target nodes)

/-- The timer in front of the first one that is not before it. -/
def scanInsert (timer : NodePtr × BitVec 64) (seq : List (NodePtr × BitVec 64)) : List (NodePtr × BitVec 64) :=
  seq.orderedInsert (fun a b => a.2 ≤ b.2) timer

/-- The sequence without the first timer of a score. -/
def scanErase (c : BitVec 64) (seq : List (NodePtr × BitVec 64)) : List (NodePtr × BitVec 64) :=
  seq.eraseP fun e => decide (e.2 = c)

/-! ## The sequence of a list -/

/-- The sequence has the stored scores. -/
theorem ScoredLevel.score_eq {seq : List (NodePtr × BitVec 64)} (h : ScoredLevel s seq)
    {e : NodePtr × BitVec 64} (he : e ∈ seq) : score s.heap e.1 = e.2 := by
  rw [score, h.scores e he, Option.getD_some]

/-- The sequence has the nodes of the order. -/
theorem Represents.map_fst_eq (h : Represents s order) {seq : List (NodePtr × BitVec 64)}
    (hseq : ScoredLevel s seq) : seq.map Prod.fst = order := hseq.bottom.unique h.bottomLevel

/-- A sequence cut where the nodes are cut. -/
theorem Represents.split_scored (h : Represents s (A ++ B)) {seq : List (NodePtr × BitVec 64)}
    (hseq : ScoredLevel s seq) : ∃ seqA seqB, seq = seqA ++ seqB ∧ seqA.map Prod.fst = A ∧
      seqB.map Prod.fst = B := List.map_eq_append_iff.mp (h.map_fst_eq hseq)

/-! ## The searches -/

/-- An ordered insertion at a split. -/
theorem scanInsert_append {timer : NodePtr × BitVec 64} {seqA seqB : List (NodePtr × BitVec 64)}
    (hA : ∀ a ∈ seqA, a.2 < timer.2) (hB : ∀ b ∈ seqB, timer.2 ≤ b.2) :
    scanInsert timer (seqA ++ seqB) = seqA ++ timer :: seqB := by
  induction seqA with
  | nil =>
    cases seqB with
    | nil => rfl
    | cons b seqB => exact List.orderedInsert_cons_of_le _ _ (hB b List.mem_cons_self)
  | cons a seqA ih =>
    obtain ⟨ha, hA⟩ := List.forall_mem_cons.mp hA
    rw [List.cons_append, scanInsert, List.orderedInsert_cons, if_neg (BitVec.not_le.mpr ha),
      ← scanInsert, ih hA, List.cons_append]

/-- A descent records the last nodes below its target. -/
theorem WellSorted.recordsLastBelow (h : WellSorted s order) (target : BitVec 64) : RecordsLastBelow s target := by
  obtain ⟨x, temp, A, B, hrun, rfl, hsearch⟩ := h.represents.search target
  refine ⟨x, temp, hrun, fun i hi nodes hnodes => ?_⟩
  obtain ⟨hbelow, habove⟩ := hsearch.bounds h.represents h.sorted
  have hi' : i < skiplistMaxlevel := lt_of_lt_of_le hi h.represents.level_bounds.2.1
  have hchain := h.represents.chain i hi'
  rw [h.represents.onLevel_header hi', onLevel_append] at hchain
  obtain rfl : nodes = onLevel s.heap i A ++ onLevel s.heap i B := hnodes.unique hchain.2
  have hA : (onLevel s.heap i A).filter (fun p => decide (score s.heap p < target)) = onLevel s.heap i A :=
    List.filter_eq_self.mpr fun p hp => decide_eq_true (hbelow p (mem_onLevel.mp hp).1)
  have hB : (onLevel s.heap i B).filter (fun p => decide (score s.heap p < target)) = [] :=
    List.filter_eq_nil_iff.mpr fun p hp => by
      rw [decide_eq_true_eq]
      exact BitVec.not_lt.mpr (habove p (mem_onLevel.mp hp).1)
  rw [h.represents.temp_eq hsearch hi, predecessor, h.represents.onLevel_header hi', lastBelow,
    List.filter_append, hA, hB, List.append_nil, List.getLast?_cons, Option.getD_some]

/-! ## The calls -/

/-- An insertion changes the sequence as a linear scan does. -/
theorem WellSorted.insertNode (h : WellSorted s order) {seq : List (NodePtr × BitVec 64)}
    (hseq : ScoredLevel s seq) {requested : BitVec 32} (hsmall : requested.toNat < 2 ^ 31) {newlevel : ℕ}
    (hlow : 1 ≤ newlevel) (hhigh : newlevel ≤ skiplistMaxlevel) (handler : H) :
    ∃ s', insertNode s requested newlevel handler = some (s', s.fresh) ∧
      ScoredLevel s' (scanInsert (s.fresh, requested.setWidth 64) seq) := by
  obtain ⟨s', x, temp, A, B, hrun, rfl, hsearch, hins, hrep⟩ :=
    h.represents.insertNode_spec requested hlow hhigh handler
  refine ⟨s', hrun, ?_⟩
  obtain ⟨hbelow, habove⟩ := hsearch.bounds h.represents h.sorted
  obtain ⟨seqA, seqB, rfl, rfl, rfl⟩ := h.represents.split_scored hseq
  have hA : ∀ a ∈ seqA, a.2 < requested.setWidth 64 := fun a ha => by
    rw [← hseq.score_eq (List.mem_append_left _ ha)]
    exact hbelow a.1 (List.mem_map_of_mem ha)
  have hB : ∀ b ∈ seqB, requested.setWidth 64 ≤ b.2 := fun b hb => by
    rw [← hseq.score_eq (List.mem_append_right _ hb)]
    exact habove b.1 (List.mem_map_of_mem hb)
  rw [scanInsert_append hA hB]
  refine ⟨by simpa using hrep.bottomLevel, fun e he => ?_⟩
  rcases List.mem_cons.mp (List.perm_middle.mem_iff.mp he) with rfl | he
  · have hnode : (s'.heap s.fresh).isSome := (hins.isSome_iff s.fresh).mpr (Or.inl rfl)
    rw [getScore_eq hnode, hins.score_self, stored_eq_target hsmall]
  · have hmem : e.1 ∈ seqA.map Prod.fst ++ seqB.map Prod.fst := by
      rw [← List.map_append]
      exact List.mem_map_of_mem he
    have hnode : (s.heap e.1).isSome := (h.represents.nodes e.1).mpr (Or.inr hmem)
    have hne : e.1 ≠ s.fresh := fun heq =>
      h.represents.fresh_not_mem (heq ▸ List.mem_cons_of_mem _ hmem)
    rw [getScore_eq ((hins.isSome_iff e.1).mpr (Or.inr hnode)), hins.score_of_ne hne, hseq.score_eq he]

/-- A deletion of a live node changes the sequence as a linear scan does. -/
theorem WellSorted.delNode (h : WellSorted s order) {seq : List (NodePtr × BitVec 64)}
    (hseq : ScoredLevel s seq) {p : NodePtr × BitVec 64} (hp : p ∈ seq) :
    ∃ s' d, delNode s p.1 = some (s', some d) ∧ (seq.find? fun e => decide (e.2 = p.2)) = some (d, p.2) ∧
      ScoredLevel s' (scanErase p.2 seq) := by
  have hmem : p.1 ∈ order := h.represents.map_fst_eq hseq ▸ List.mem_map_of_mem hp
  have hscore := hseq.score_eq hp
  have hnode : (s.heap p.1).isSome := (h.represents.nodes p.1).mpr (Or.inr hmem)
  obtain ⟨s', removed, x, temp, A, B, hrun, rfl, hsearch, hcase⟩ := h.represents.delNode_spec hnode
  obtain ⟨hbelow, -⟩ := hsearch.bounds h.represents h.sorted
  obtain ⟨first, rest', rfl, hfirst⟩ := hsearch.found h.represents h.sorted hmem
  rcases hcase with ⟨d, rest, hB, -, rfl, hdel, hrep⟩ | ⟨rfl, rfl, hmiss⟩
  · obtain ⟨rfl, rfl⟩ := List.cons.inj hB
    obtain ⟨seqA, seqB, rfl, rfl, hB⟩ := h.represents.split_scored hseq
    obtain ⟨e, seqB, rfl, rfl, rfl⟩ := List.map_eq_cons_iff.mp hB
    have he : e.2 = p.2 := by rw [← hseq.score_eq (by simp), hfirst, hscore]
    have hA : ∀ a ∈ seqA, ¬ decide (a.2 = p.2) = true := fun a ha => by
      have hlt := hbelow a.1 (List.mem_map_of_mem ha)
      rw [hscore, hseq.score_eq (List.mem_append_left _ ha)] at hlt
      rw [decide_eq_true_eq]
      exact BitVec.ne_of_lt hlt
    refine ⟨s', e.1, hrun, ?_, ?_⟩
    · rw [List.find?_append, List.find?_eq_none.mpr hA, Option.none_or, List.find?_cons_of_pos (by simp [he]),
        ← he]
    · rw [scanErase, List.eraseP_append_right _ hA, List.eraseP_cons_of_pos (by simp [he])]
      refine ⟨by simpa using hrep.bottomLevel, fun e' he' => ?_⟩
      have hmem' : e'.1 ∈ seqA.map Prod.fst ++ seqB.map Prod.fst := by
        rw [← List.map_append]
        exact List.mem_map_of_mem he'
      have hne : e'.1 ≠ e.1 := fun heq =>
        h.represents.not_mem_rest (heq ▸ List.mem_cons_of_mem _ hmem')
      have hold : e' ∈ seqA ++ e :: seqB := List.perm_middle.mem_iff.mpr (List.mem_cons_of_mem _ he')
      have hnode' : (s'.heap e'.1).isSome := (hdel.isSome_iff e'.1).mpr
        ⟨hne, (h.represents.nodes e'.1).mpr (Or.inr (h.represents.map_fst_eq hseq ▸ List.mem_map_of_mem hold))⟩
      rw [getScore_eq hnode', hdel.score_of_ne hne, hseq.score_eq hold]
  · exact absurd hfirst (hmiss first rfl)

/-- The calls do what linear scans of the sequence do, with the predecessors of a linear scan. -/
structure AgreesWithScan (s : SkipList H) (seq : List (NodePtr × BitVec 64)) : Prop where
  insert : ∀ requested newlevel handler, requested.toNat < 2 ^ 31 → 1 ≤ newlevel → newlevel ≤ skiplistMaxlevel →
    ∃ s', insertNode s requested newlevel handler = some (s', s.fresh) ∧
      ScoredLevel s' (scanInsert (s.fresh, requested.setWidth 64) seq) ∧
      RecordsLastBelow s (requested.setWidth 64)
  delete : ∀ p ∈ seq, ∃ s' d, delNode s p.1 = some (s', some d) ∧
    (seq.find? fun e => decide (e.2 = p.2)) = some (d, p.2) ∧ ScoredLevel s' (scanErase p.2 seq) ∧
    RecordsLastBelow s p.2

/-- Of two lists with one sequence, an insertion puts its node at one place of the sequence and a deletion
leaves one sequence, whatever the heights in the lists and those of the new nodes. -/
structure SameOutcomes (s t : SkipList H) (seq : List (NodePtr × BitVec 64)) : Prop where
  insert : ∀ requested newlevel newlevel' handler handler' s' t' x y, requested.toNat < 2 ^ 31 →
    1 ≤ newlevel → newlevel ≤ skiplistMaxlevel → 1 ≤ newlevel' → newlevel' ≤ skiplistMaxlevel →
    insertNode s requested newlevel handler = some (s', x) →
    insertNode t requested newlevel' handler' = some (t', y) →
    ∃ before after, seq = before ++ after ∧
      ScoredLevel s' (before ++ (x, requested.setWidth 64) :: after) ∧
      ScoredLevel t' (before ++ (y, requested.setWidth 64) :: after)
  delete : ∀ p ∈ seq, ∀ s' t' removed removed', delNode s p.1 = some (s', removed) →
    delNode t p.1 = some (t', removed') →
    removed = removed' ∧ ∃ after, ScoredLevel s' after ∧ ScoredLevel t' after

/-- A sorted list is searched as its sequence is. -/
theorem WellSorted.agreesWithScan (h : WellSorted s order) {seq : List (NodePtr × BitVec 64)}
    (hseq : ScoredLevel s seq) : AgreesWithScan s seq where
  insert := fun requested newlevel handler hsmall hlow hhigh => by
    obtain ⟨s', hrun, hafter⟩ := h.insertNode hseq hsmall hlow hhigh handler
    exact ⟨s', hrun, hafter, h.recordsLastBelow _⟩
  delete := fun p hp => by
    obtain ⟨s', d, hrun, hfirst, hafter⟩ := h.delNode hseq hp
    exact ⟨s', d, hrun, hfirst, hafter, h.recordsLastBelow _⟩

/-- What agrees with the same scans has the same outcomes. -/
theorem AgreesWithScan.sameOutcomes {seq : List (NodePtr × BitVec 64)} (h : AgreesWithScan s seq)
    (h' : AgreesWithScan t seq) : SameOutcomes s t seq where
  insert := fun requested newlevel newlevel' handler handler' s' t' x y hsmall hlow hhigh hlow' hhigh' hs ht => by
    obtain ⟨s'', hrun, hafter, -⟩ := h.insert requested newlevel handler hsmall hlow hhigh
    obtain ⟨t'', hrun', hafter', -⟩ := h'.insert requested newlevel' handler' hsmall hlow' hhigh'
    obtain ⟨rfl, rfl⟩ := Prod.mk.inj (Option.some.inj (hrun.symm.trans hs))
    obtain ⟨rfl, rfl⟩ := Prod.mk.inj (Option.some.inj (hrun'.symm.trans ht))
    rw [scanInsert, List.orderedInsert_eq_take_drop] at hafter hafter'
    exact ⟨_, _, List.takeWhile_append_dropWhile.symm, hafter, hafter'⟩
  delete := fun p hp s' t' removed removed' hs ht => by
    obtain ⟨s'', d, hrun, hfirst, hafter, -⟩ := h.delete p hp
    obtain ⟨t'', d', hrun', hfirst', hafter', -⟩ := h'.delete p hp
    obtain ⟨rfl, rfl⟩ := Prod.mk.inj (Option.some.inj (hrun.symm.trans hs))
    obtain ⟨rfl, rfl⟩ := Prod.mk.inj (Option.some.inj (hrun'.symm.trans ht))
    refine ⟨?_, _, hafter, hafter'⟩
    rw [hfirst, Option.some.injEq, Prod.mk.injEq] at hfirst'
    rw [hfirst'.1]

/-- On every list with its scores in order the searches agree with linear scans, and the heights do not
matter. -/
theorem search_agreesWithScan (h : WellSorted s order) {seq : List (NodePtr × BitVec 64)}
    (hseq : ScoredLevel s seq) :
    AgreesWithScan s seq ∧ ∀ t order', WellSorted t order' → ScoredLevel t seq → SameOutcomes s t seq :=
  ⟨h.agreesWithScan hseq, fun _ _ ht hseq' => (h.agreesWithScan hseq).sameOutcomes (ht.agreesWithScan hseq')⟩

/-- Three timers of different heights, two of them due at the same time. -/
theorem search_agreesWithScan_ties : ∃ w : World Unit,
    (∃ order, WellSorted w.list order) ∧ ScoredLevel w.list [(2, 5), (3, 7), (1, 7)] ∧
      (AgreesWithScan w.list [(2, 5), (3, 7), (1, 7)] ∧ ∀ t order', WellSorted t order' →
        ScoredLevel t [(2, 5), (3, 7), (1, 7)] → SameOutcomes w.list t [(2, 5), (3, 7), (1, 7)]) := by
  have hrun : (Transition.replay (Transition.guard SmallScore Call.check) (World.new ())
      [.insert 7 1 (), .insert 5 3 (), .insert 7 2 ()]).map (fun w => decide (BottomLevel w.list [2, 3, 1] ∧
        ∀ e ∈ [((2 : NodePtr), (5 : BitVec 64)), (3, 7), (1, 7)], getScore w.list.heap e.1 = some e.2)) =
      some true := by decide
  obtain ⟨w, hrun, hw⟩ := Option.map_eq_some_iff.mp hrun
  obtain ⟨hbottom, hscores⟩ := of_decide_eq_true hw
  obtain ⟨order, htracks, hsorted, -⟩ := Reachable.newestFirst
    (Transition.Reachable.replay_guard (fun _ _ _ => Call.step_of_check) (.init rfl) hrun)
  have hwell : WellSorted w.list order := ⟨htracks.represents, hsorted⟩
  exact ⟨w, ⟨order, hwell⟩, ⟨hbottom, hscores⟩, search_agreesWithScan hwell ⟨hbottom, hscores⟩⟩

end CppProject.SkipListTimer
