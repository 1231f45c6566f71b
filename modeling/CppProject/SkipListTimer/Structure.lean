import CppProject.SkipListTimer.Insert
import CppProject.SkipListTimer.Delete

/-!
# The structural invariant of the skip list

Every state reached from `SkipList()` by insertions with arbitrary scores and heights,
deletions of live nodes and head removals represents a sequence of exactly the live nodes. The
invariant of the 32 lists follows: each is finite and ends at null, each is a subsequence of
the one below, and a node is on the levels below the height it was created with. No call on
such a state ever fails, so none reads an unassigned slot.
-/

namespace CppProject.SkipListTimer

open PointerChain

variable {H : Type*} {w : World H} {order : List NodePtr}

/-- The list represents a sequence of exactly the recorded nodes, with their recorded heights. -/
structure Tracks (w : World H) (order : List NodePtr) : Prop where
  represents : Represents w.list order
  perm : (w.live.map Prod.fst).Perm order
  heights : ∀ e ∈ w.live, height w.list.heap e.1 = e.2

/-- Recorded nodes are on the heap. -/
theorem Tracks.isSome (h : Tracks w order) {p : NodePtr} (hp : p ∈ w.live.map Prod.fst) :
    (w.list.heap p).isSome := (h.represents.nodes p).mpr (Or.inr (h.perm.mem_iff.mp hp))

/-- An insertion keeps the record exact. -/
theorem Tracks.insert {A B : List NodePtr} (h : Tracks w (A ++ B)) {s' : SkipList H}
    {score : BitVec 32} {newlevel : ℕ} {handler : H}
    (hins : Inserted w.list s' score newlevel handler)
    (hrep : Represents s' (A ++ w.list.fresh :: B)) :
    Tracks ⟨s', (w.list.fresh, newlevel) :: w.live⟩ (A ++ w.list.fresh :: B) := by
  refine ⟨hrep, (h.perm.cons _).trans List.perm_middle.symm, fun e he => ?_⟩
  rcases List.mem_cons.mp he with rfl | he
  · exact hins.height_self
  · have hmem : e.1 ∈ A ++ B := h.perm.mem_iff.mp (List.mem_map_of_mem he)
    rw [hins.height_of_ne fun heq => h.represents.fresh_not_mem (heq ▸ List.mem_cons_of_mem _ hmem)]
    exact h.heights e he

/-- Dropping the removed node from the record removes exactly it from the recorded nodes. -/
theorem map_fst_dropRemoved (d : NodePtr) (live : List (NodePtr × ℕ)) :
    (dropRemoved (some d) live).map Prod.fst = (live.map Prod.fst).filter (· ≠ d) := by
  simp [dropRemoved, List.filter_map, Function.comp_def]

/-- A deletion keeps the record exact. -/
theorem Tracks.delete {A rest : List NodePtr} {d : NodePtr} (h : Tracks w (A ++ d :: rest))
    {s' : SkipList H} (hdel : Deleted w.list s' d) (hrep : Represents s' (A ++ rest)) :
    Tracks ⟨s', dropRemoved (some d) w.live⟩ (A ++ rest) := by
  refine ⟨hrep, ?_, fun e he => ?_⟩
  · rw [map_fst_dropRemoved, ← h.represents.filter_ne]
    exact h.perm.filter (· ≠ d)
  · obtain ⟨he, hne⟩ := List.mem_filter.mp he
    rw [hdel.height_of_ne (by simpa using hne)]
    exact h.heights e he

/-- Deleting nothing keeps the record. -/
@[simp] theorem dropRemoved_none (live : List (NodePtr × ℕ)) : dropRemoved none live = live :=
  List.filter_eq_self.mpr fun _ _ => by simp

/-- `GetMinNode` reads the first node of the sequence. -/
theorem Represents.getMinNode_eq {s : SkipList H} (h : Represents s order) :
    getMinNode s = some order.head? := by
  rw [getMinNode, getNextNodeOfLevel_eq (by rw [h.header]; decide), h.next_header (by decide),
    h.onLevel_zero (List.Subset.refl _)]

/-- The node a call passes to `Del_node`. -/
def Call.victim (order : List NodePtr) : Call H → Option NodePtr
  | .insert _ _ _ => none
  | .del snode => some snode
  | .delHead => order.head?

/-- All that a valid call does to the represented sequence, with the search it performed. -/
inductive Effect (w : World H) : List NodePtr → Call H → World H → List NodePtr → Prop
  | inserted {A B : List NodePtr} {score : BitVec 32} {newlevel : ℕ} {handler : H} {x : NodePtr}
      {temp : Temp} {s' : SkipList H} :
      Search w.list.heap (score.setWidth 64) w.list.mHeader w.list.mLevel A B x temp →
      Inserted w.list s' score newlevel handler →
      Effect w (A ++ B) (.insert score newlevel handler)
        ⟨s', (w.list.fresh, newlevel) :: w.live⟩ (A ++ w.list.fresh :: B)
  | deleted {A rest : List NodePtr} {call : Call H} {snode d x : NodePtr} {temp : Temp}
      {s' : SkipList H} :
      call.victim (A ++ d :: rest) = some snode →
      Search w.list.heap (score w.list.heap snode) w.list.mHeader w.list.mLevel A (d :: rest) x temp →
      score w.list.heap d = score w.list.heap snode → Deleted w.list s' d →
      Effect w (A ++ d :: rest) call ⟨s', dropRemoved (some d) w.live⟩ (A ++ rest)
  | missed {A B : List NodePtr} {call : Call H} {snode x : NodePtr} {temp : Temp} :
      call.victim (A ++ B) = some snode →
      Search w.list.heap (score w.list.heap snode) w.list.mHeader w.list.mLevel A B x temp →
      (∀ d, B.head? = some d → score w.list.heap d ≠ score w.list.heap snode) →
      Effect w (A ++ B) call w (A ++ B)
  | empty : Effect w [] .delHead w []

/-- `Del_node` on any node of the heap succeeds and keeps the record exact. -/
theorem Tracks.delNode (h : Tracks w order) {call : Call H} {snode : NodePtr}
    (hvictim : call.victim order = some snode) (hsnode : (w.list.heap snode).isSome) :
    ∃ s' removed order', delNode w.list snode = some (s', removed) ∧
      Effect w order call ⟨s', dropRemoved removed w.live⟩ order' ∧
      Tracks ⟨s', dropRemoved removed w.live⟩ order' := by
  obtain ⟨s', removed, x, temp, A, B, hrun, rfl, hsearch, hcase⟩ := h.represents.delNode_spec hsnode
  rcases hcase with ⟨d, rest, rfl, hfound, rfl, hdel, hrep⟩ | ⟨rfl, rfl, hmiss⟩
  · exact ⟨s', some d, A ++ rest, hrun, .deleted hvictim hsearch hfound hdel, h.delete hdel hrep⟩
  · refine ⟨w.list, none, A ++ B, hrun, ?_⟩
    rw [dropRemoved_none]
    exact ⟨.missed hvictim hsearch hmiss, h⟩

/-- Every valid call succeeds, has one of the described effects and keeps the record exact. -/
theorem Tracks.exec (h : Tracks w order) {call : Call H} (hvalid : call.Valid w) :
    ∃ w' order', call.exec w = some w' ∧ Effect w order call w' order' ∧ Tracks w' order' := by
  cases call with
  | insert score newlevel handler =>
    obtain ⟨s', x, temp, A, B, hrun, rfl, hsearch, hins, hrep⟩ :=
      h.represents.insertNode_spec score hvalid.1 hvalid.2 handler
    exact ⟨_, _, by rw [Call.exec, hrun, Option.map_some], .inserted hsearch hins, h.insert hins hrep⟩
  | del snode =>
    obtain ⟨s', removed, order', hrun, heffect, htracks⟩ :=
      h.delNode (rfl : (Call.del snode : Call H).victim order = some snode) (h.isSome hvalid)
    exact ⟨_, order', by rw [Call.exec, hrun, Option.map_some], heffect, htracks⟩
  | delHead =>
    rw [Call.exec, delHeadNode, h.represents.getMinNode_eq, Option.bind_some]
    cases order with
    | nil =>
      refine ⟨w, [], ?_, .empty, h⟩
      simp
    | cons first rest =>
      obtain ⟨s', removed, order', hrun, heffect, htracks⟩ := h.delNode
        (rfl : (Call.delHead : Call H).victim (first :: rest) = some first)
        ((h.represents.nodes first).mpr (Or.inr List.mem_cons_self))
      exact ⟨_, order', by simp [hrun], heffect, htracks⟩

/-- The effect of a step that was taken. -/
theorem Tracks.step (h : Tracks w order) {call : Call H} {w' : World H} (hstep : Step w call w') :
    ∃ order', Effect w order call w' order' ∧ Tracks w' order' := by
  obtain ⟨hvalid, hexec⟩ := hstep
  obtain ⟨w'', order', hexec', heffect, htracks⟩ := h.exec hvalid
  obtain rfl : w'' = w' := Option.some.inj (hexec'.symm.trans hexec)
  exact ⟨order', heffect, htracks⟩

/-- The empty list represents the empty sequence. -/
theorem tracks_new (printfHello : H) : Tracks (World.new printfHello) [] := by
  have hlinks : ∀ i, next (SkipList.new printfHello).heap i 0 = none := fun i => by
    simp only [next, getNextNodeOfLevel, SkipList.new, SkipListNode.new, Function.update_self,
      Option.bind_some]
    cases h : (List.replicate skiplistMaxlevel (none : Option NodePtr))[i]? with
    | none => rfl
    | some link => exact (List.mem_replicate.mp (List.mem_of_getElem? h)).2
  refine ⟨⟨fun i hi => ?_, rfl, fun p => ?_, by simp, fun p hp => ?_, rfl, rfl⟩, List.Perm.refl _,
    by simp [World.new]⟩
  · rw [onLevel_cons_of_lt (by exact hi)]
    exact ⟨rfl, hlinks i⟩
  · by_cases hp : p = 0
    · subst hp
      simp [World.new, SkipList.new]
    · simp [World.new, SkipList.new, hp]
  · by_contra hge
    have hp0 : p ≠ 0 := fun heq => hge (heq ▸ Nat.one_pos)
    simp [World.new, SkipList.new, Function.update_of_ne hp0] at hp

/-- Every reachable state represents a sequence of exactly its live nodes. -/
theorem Reachable.tracks {printfHello : H} (h : Reachable printfHello w) : ∃ order, Tracks w order := by
  refine Transition.Reachable.invariant (P := fun w => ∃ order, Tracks w order)
    (fun w hw => ?_) (fun w call w' hw hstep => ?_) h
  · exact ⟨[], hw ▸ tracks_new printfHello⟩
  · obtain ⟨order, htracks⟩ := hw
    obtain ⟨order', -, htracks'⟩ := htracks.step hstep
    exact ⟨order', htracks'⟩

/-- The invariant of the linked lists, with the nodes of each level listed. -/
structure WellFormed (w : World H) (levels : ℕ → List NodePtr) : Prop where
  linked : ∀ i < skiplistMaxlevel,
    Chain (next w.list.heap i) (next w.list.heap i w.list.mHeader) (levels i)
  acyclic : ∀ i < skiplistMaxlevel, (levels i).Nodup
  nested : ∀ i, i + 1 < skiplistMaxlevel → (levels (i + 1)).Sublist (levels i)
  heights : ∀ p h, (p, h) ∈ w.live → height w.list.heap p = h ∧
    ∀ i < skiplistMaxlevel, p ∈ levels i ↔ i < h
  level : w.list.mLevel = (w.live.map Prod.snd).foldr max 1
  above : ∀ i, w.list.mLevel ≤ i → i < skiplistMaxlevel → next w.list.heap i w.list.mHeader = none
  length : w.list.mLength = (levels 0).length
  bottom : (levels 0).Perm (w.live.map Prod.fst)

/-- A represented sequence determines all levels. -/
theorem Tracks.wellFormed (h : Tracks w order) :
    WellFormed w fun i => onLevel w.list.heap i order := by
  have hbottom : onLevel w.list.heap 0 order = order := h.represents.onLevel_zero (List.Subset.refl _)
  have hlinked : ∀ i < skiplistMaxlevel, Chain (next w.list.heap i)
      (next w.list.heap i w.list.mHeader) (onLevel w.list.heap i order) := fun i hi => by
    have hchain := h.represents.chain i hi
    rw [h.represents.onLevel_header hi] at hchain
    exact hchain.2
  refine ⟨hlinked, fun i hi => (hlinked i hi).nodup, fun i _ => ?_, fun p created hp => ?_, ?_,
    fun i hlow hi => ?_, ?_, ?_⟩
  · exact List.monotone_filter_right order fun p => by
      simp only [decide_eq_true_eq]
      omega
  · have hheight : height w.list.heap p = created := h.heights _ hp
    have hmem : p ∈ order := h.perm.mem_iff.mp (List.mem_map_of_mem hp)
    refine ⟨hheight, fun i _ => ?_⟩
    rw [mem_onLevel, ← hheight]
    exact and_iff_right hmem
  · have hrecorded : w.live.map Prod.snd = (w.live.map Prod.fst).map (height w.list.heap) := by
      rw [List.map_map]
      exact List.map_congr_left fun e he => (h.heights e he).symm
    rw [h.represents.level, hrecorded]
    exact (h.perm.map _).symm.foldr_eq 1
  · rw [h.represents.next_header hi, h.represents.onLevel_eq_nil hlow (List.Subset.refl _)]
    rfl
  · rw [hbottom, h.represents.length]
  · rw [hbottom]
    exact h.perm.symm

/-- In every reachable state the linked lists are well formed, and every valid call succeeds. -/
theorem skipList_wellFormed {printfHello : H} (h : Reachable printfHello w) :
    (∃ levels, WellFormed w levels) ∧ ∀ call : Call H, call.Valid w → ∃ w', call.exec w = some w' := by
  obtain ⟨order, htracks⟩ := h.tracks
  refine ⟨⟨_, htracks.wellFormed⟩, fun call hvalid => ?_⟩
  obtain ⟨w', -, hexec, -, -⟩ := htracks.exec hvalid
  exact ⟨w', hexec⟩

/-- Two scores that are stored sign-extended and hence out of order: the removal of the head then
searches past it and finds no node to delete. -/
theorem skipList_wellFormed_unsorted :
    ∃ w : World Unit, w.live = [(2, 1), (1, 2)] ∧ (∃ levels, WellFormed w levels) ∧
      ∀ call : Call Unit, call.Valid w → ∃ w', call.exec w = some w' := by
  have hlive : (runCalls () [.insert 0x80000000 2 (), .insert 0x80000005 1 (), .delHead]).map
      World.live = some [(2, 1), (1, 2)] := by decide
  obtain ⟨w, hrun, hlive⟩ := Option.map_eq_some_iff.mp hlive
  exact ⟨w, hlive, skipList_wellFormed (reachable_of_runCalls hrun)⟩

end CppProject.SkipListTimer
