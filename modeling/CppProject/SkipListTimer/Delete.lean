import CppProject.SkipListTimer.Represents

/-!
# What a deletion does to the represented sequence

`Del_node` removes the node ahead of the split its search found, provided that node has the
score it searched for, and otherwise changes nothing. The removed node is unlinked from every
level it was linked on and then deleted. Whether it is the node the caller passed is a separate
question; nothing here depends on it.
-/

namespace CppProject.SkipListTimer

open PointerChain

variable {H : Type*} {s s' : SkipList H} {order A B : List NodePtr} {d : NodePtr}

/-- The heap without one node. -/
def freeNode (heap : Heap H) (d : NodePtr) : Heap H := Function.update heap d none

/-- The other nodes are as before. -/
theorem freeNode_of_ne (heap : Heap H) {p : NodePtr} (hp : p ≠ d) : freeNode heap d p = heap p :=
  Function.update_of_ne hp _ _

/-- The links of the other nodes. -/
theorem next_freeNode_of_ne (heap : Heap H) (i : ℕ) {p : NodePtr} (hp : p ≠ d) :
    next (freeNode heap d) i p = next heap i p := by
  rw [next, getNextNodeOfLevel, freeNode_of_ne heap hp, ← getNextNodeOfLevel, ← next]

/-- What a deletion changes besides links: one node less, the others as they were. -/
structure Deleted (s s' : SkipList H) (d : NodePtr) : Prop where
  header : s'.mHeader = s.mHeader
  fresh : s'.fresh = s.fresh
  self : s'.heap d = none
  others : ∀ p, p ≠ d → (s'.heap p).map SkipListNode.shape = (s.heap p).map SkipListNode.shape

namespace Deleted

/-- The other nodes keep their heights. -/
theorem height_of_ne (h : Deleted s s' d) {p : NodePtr} (hp : p ≠ d) :
    height s'.heap p = height s.heap p := by
  rw [height_eq_shape, height_eq_shape, h.others p hp]

/-- The other nodes keep their scores. -/
theorem score_of_ne (h : Deleted s s' d) {p : NodePtr} (hp : p ≠ d) :
    score s'.heap p = score s.heap p := by
  rw [score_eq_shape, score_eq_shape, h.others p hp]

/-- The nodes after a deletion are those before it but one. -/
theorem isSome_iff (h : Deleted s s' d) (p : NodePtr) :
    (s'.heap p).isSome ↔ p ≠ d ∧ (s.heap p).isSome := by
  by_cases hp : p = d
  · subst hp
    simp [h.self]
  · have := congrArg Option.isSome (h.others p hp)
    simp only [Option.isSome_map] at this
    simp [hp, this]

/-- The remaining nodes stay on their levels. -/
theorem onLevel_eq (h : Deleted s s' d) {nodes : List NodePtr} (hd : d ∉ nodes) (i : ℕ) :
    onLevel s'.heap i nodes = onLevel s.heap i nodes :=
  onLevel_congr i fun _ hp => h.height_of_ne fun heq => hd (heq ▸ hp)

end Deleted

/-- The link of the predecessor on a level: the first node ahead of the split linked there. -/
theorem Represents.next_predecessor (h : Represents s (A ++ B)) {i : ℕ} (hi : i < skiplistMaxlevel) :
    next s.heap i (predecessor s A i) = (onLevel s.heap i B).head? := by
  obtain ⟨before, -, hchain⟩ := h.chain_split hi
  exact hchain.next_eq

/-- The final position of a search is the predecessor on the bottom level. -/
theorem Represents.position_eq (h : Represents s (A ++ B)) {target : BitVec 64} {x : NodePtr}
    {temp : Temp} (hsearch : Search s.heap target s.mHeader s.mLevel A B x temp) :
    x = predecessor s A 0 := by
  have hbottom : onLevel s.heap 0 (s.mHeader :: A) = s.mHeader :: A := by
    rw [h.onLevel_header (by decide), h.onLevel_zero (by simp)]
  rw [predecessor, hbottom, hsearch.last, Option.getD_some]

/-- The node ahead of the split follows its predecessor on exactly the levels it is linked on. -/
theorem Represents.follows_iff (h : Represents s (A ++ d :: B)) {i : ℕ} (hi : i < skiplistMaxlevel) :
    next s.heap i (predecessor s A i) = some d ↔ i < height s.heap d := by
  rw [h.next_predecessor hi]
  constructor
  · intro hhead
    exact (mem_onLevel.mp (List.mem_of_mem_head? hhead)).2
  · intro hlt
    rw [onLevel_cons_of_lt hlt, List.head?_cons]

/-- The node ahead of the split occurs nowhere else. -/
theorem Represents.not_mem_rest (h : Represents s (A ++ d :: B)) : d ∉ s.mHeader :: (A ++ B) := by
  have hnodup := h.nodup
  rw [← List.cons_append, List.nodup_middle, List.cons_append] at hnodup
  exact (List.nodup_cons.mp hnodup).1

/-- Filtering the node ahead of the split out removes exactly it. -/
theorem Represents.filter_ne (h : Represents s (A ++ d :: B)) :
    (A ++ d :: B).filter (· ≠ d) = A ++ B := by
  have hd : d ∉ A ++ B := fun hmem => h.not_mem_rest (List.mem_cons_of_mem _ hmem)
  rw [List.filter_append, List.filter_cons_of_neg (by simp), ← List.filter_append]
  exact List.filter_eq_self.mpr fun p hp => by
    have hne : p ≠ d := fun heq => hd (heq ▸ hp)
    simpa using hne

/-- The chains after the unlinking loop. -/
theorem Represents.chain_unlinked (h : Represents s (A ++ d :: B)) {i : ℕ}
    (hi : i < skiplistMaxlevel) :
    Chain (if next s.heap i (predecessor s A i) = some d then
        Function.update (next s.heap i) (predecessor s A i) (next s.heap i d) else next s.heap i)
      (some s.mHeader) (onLevel s.heap i (s.mHeader :: (A ++ B))) := by
  obtain ⟨before, hbefore, hchain⟩ := h.chain_split hi
  rw [← List.cons_append, onLevel_append, hbefore, List.append_assoc]
  by_cases hlt : i < height s.heap d
  · rw [if_pos ((h.follows_iff hi).mpr hlt)]
    rw [onLevel_cons_of_lt hlt] at hchain
    exact hchain.unlink
  · rw [if_neg (mt (h.follows_iff hi).mp hlt)]
    rw [onLevel_cons_of_le (by omega)] at hchain
    exact hchain

/-- The unlinking loop, and the chains it leaves on all levels, including those it does not visit. -/
theorem Represents.unlink_levels (h : Represents s (A ++ d :: B)) {temp : Temp}
    (htemp : ∀ i < s.mLevel, temp i = some (predecessor s A i)) :
    ∃ heap', forLevels (unlinkLevel d temp) s.mLevel s.heap = some heap' ∧ SameNodes s.heap heap' ∧
      ∀ i < skiplistMaxlevel,
        Chain (next heap' i) (some s.mHeader) (onLevel s.heap i (s.mHeader :: (A ++ B))) := by
  obtain ⟨-, hlevel, hheights⟩ := h.level_bounds
  obtain ⟨heap', hrun, hsame, hedit, hkeep⟩ := forLevels_unlinkLevel_spec htemp
    (fun i hi => (h.predecessor_mem (by omega : i < skiplistMaxlevel) A).2)
    (fun i hi => (h.follows_iff (by omega : i < skiplistMaxlevel)).mp)
  refine ⟨heap', hrun, hsame, fun i hi => ?_⟩
  have hchain := h.chain_unlinked hi
  by_cases hvisited : i < s.mLevel
  · rw [hedit i hvisited]
    exact hchain
  · have hnot : ¬ i < height s.heap d := by
      have := hheights d (by simp)
      omega
    rw [if_neg (mt (h.follows_iff hi).mp hnot)] at hchain
    rw [hkeep i (by omega)]
    exact hchain

/-- The shrinking loop leaves `m_level` at the greatest remaining height. -/
theorem shrinkLevel_eq_maxHeight {heap : Heap H} {header : NodePtr} {n : ℕ} {nodes : List NodePtr}
    (hpos : 1 ≤ n) (hheader : n ≤ height heap header) (hheights : ∀ p ∈ nodes, height heap p ≤ n)
    (hfirst : ∀ i < n, next heap i header = (onLevel heap i nodes).head?) :
    shrinkLevel heap header n = some (maxHeight heap nodes) := by
  obtain ⟨m, hrun, hm, hmn, hnone, hlast⟩ := shrinkLevel_spec hpos hheader
  rw [hrun, Option.some.injEq]
  apply le_antisymm
  · rcases hlast with rfl | hlast
    · exact (maxHeight_le_iff.mp le_rfl).1
    · -- The header still links on level `m - 1`, so some node is at least `m` high.
      rw [hfirst (m - 1) (by omega)] at hlast
      obtain ⟨p, hp⟩ := Option.ne_none_iff_exists'.mp hlast
      obtain ⟨hmem, hlt⟩ := mem_onLevel.mp (List.mem_of_mem_head? hp)
      have := (maxHeight_le_iff.mp (le_refl (maxHeight heap nodes))).2 p hmem
      omega
  · refine maxHeight_le_iff.mpr ⟨hm, fun p hp => ?_⟩
    by_contra hgt
    have hbound := hheights p hp
    have hempty := hnone (height heap p - 1) (by omega) (by omega)
    rw [hfirst _ (by omega), List.head?_eq_none_iff] at hempty
    have hmem : p ∈ onLevel heap (height heap p - 1) nodes := mem_onLevel.mpr ⟨hp, by omega⟩
    simp [hempty] at hmem

/-- The state after a deletion that found its score. -/
def afterDelete (s : SkipList H) (heap : Heap H) (mLevel : ℕ) (d : NodePtr) : SkipList H :=
  { s with mLength := s.mLength - 1, mLevel := mLevel, heap := freeNode heap d }

/-- Deleting an unlinked node leaves a list that represents the remaining sequence. -/
theorem Represents.afterDelete (h : Represents s (A ++ d :: B)) {heap' : Heap H}
    (hsame : SameNodes s.heap heap')
    (hchain : ∀ i < skiplistMaxlevel,
      Chain (next heap' i) (some s.mHeader) (onLevel s.heap i (s.mHeader :: (A ++ B)))) :
    Deleted s (SkipListTimer.afterDelete s heap' (maxHeight heap' (A ++ B)) d) d ∧
      Represents (SkipListTimer.afterDelete s heap' (maxHeight heap' (A ++ B)) d) (A ++ B) := by
  have hrest := h.not_mem_rest
  have hmem : ∀ p, p ∈ A ++ d :: B ↔ p = d ∨ p ∈ A ++ B := fun p => by
    simp only [List.mem_append, List.mem_cons]
    tauto
  have hdel : Deleted s (SkipListTimer.afterDelete s heap' (maxHeight heap' (A ++ B)) d) d := by
    refine ⟨rfl, rfl, Function.update_self _ _ _, fun p hp => ?_⟩
    change (freeNode heap' d p).map SkipListNode.shape = _
    rw [freeNode_of_ne heap' hp]
    exact hsame p
  have hne : ∀ p ∈ A ++ B, p ≠ d := fun p hp heq => hrest (List.mem_cons_of_mem _ (heq ▸ hp))
  have hheader : s.mHeader ≠ d := fun heq => hrest (heq ▸ List.mem_cons_self)
  refine ⟨hdel, ?_, ?_, ?_, ?_, ?_, ?_, ?_⟩
  · intro i hi
    rw [hdel.header, hdel.onLevel_eq hrest]
    refine (hchain i hi).congr fun p hp => next_freeNode_of_ne heap' i ?_
    exact fun heq => hrest (heq ▸ (mem_onLevel.mp hp).1)
  · rw [hdel.header, hdel.height_of_ne hheader, h.header]
  · intro p
    rw [hdel.isSome_iff, h.nodes, hmem, hdel.header]
    constructor
    · tauto
    · intro hp
      exact ⟨hp.elim (fun heq => heq ▸ hheader) (hne p), hp.elim Or.inl fun hp => Or.inr (Or.inr hp)⟩
  · intro p hp
    rw [hdel.height_of_ne (hne p hp)]
    exact h.heights p ((hmem p).mpr (Or.inr hp))
  · intro p hp
    exact h.fresh p ((hdel.isSome_iff p).mp hp).2
  · refine congrArg (List.foldr max 1) (List.map_congr_left fun p hp => ?_)
    rw [hdel.height_of_ne (hne p hp), hsame.height_eq]
  · change s.mLength - 1 = _
    rw [h.length]
    simp only [List.length_append, List.length_cons]
    omega

/-- `Del_node` succeeds. It deletes the node ahead of the split found by its search when that
node has the score of `snode`, and otherwise leaves the list as it is. -/
theorem Represents.delNode_spec (h : Represents s order) {snode : NodePtr}
    (hsnode : (s.heap snode).isSome) :
    ∃ s' removed x temp A B, delNode s snode = some (s', removed) ∧ order = A ++ B ∧
      Search s.heap (score s.heap snode) s.mHeader s.mLevel A B x temp ∧
      ((∃ d rest, B = d :: rest ∧ score s.heap d = score s.heap snode ∧ removed = some d ∧
          Deleted s s' d ∧ Represents s' (A ++ rest)) ∨
        (s' = s ∧ removed = none ∧ ∀ d, B.head? = some d → score s.heap d ≠ score s.heap snode)) := by
  obtain ⟨x, temp, A, B, hrun, rfl, hsearch⟩ := h.search (score s.heap snode)
  have hx := h.position_eq hsearch
  have hfirst : getNextNodeOfLevel s.heap x 0 = some B.head? := by
    rw [getNextNodeOfLevel_eq (hx ▸ (h.predecessor_mem (by decide) A).2), hx,
      h.next_predecessor (by decide), h.onLevel_zero (by simp)]
  cases B with
  | nil =>
    refine ⟨s, none, x, temp, A, [], ?_, rfl, hsearch, Or.inr ⟨rfl, rfl, by simp⟩⟩
    simp [delNode, getScore_eq hsnode, hrun, hfirst]
  | cons d rest =>
    have hd : (s.heap d).isSome := (h.nodes d).mpr (Or.inr (by simp))
    by_cases hfound : score s.heap d = score s.heap snode
    · obtain ⟨hlow, hlevel, hheights⟩ := h.level_bounds
      obtain ⟨heap', hunlink, hsame, hchain⟩ := h.unlink_levels fun i hi => h.temp_eq hsearch hi
      obtain ⟨hdel, hrep⟩ := h.afterDelete hsame hchain
      have hshrink : shrinkLevel heap' s.mHeader s.mLevel = some (maxHeight heap' (A ++ rest)) := by
        apply shrinkLevel_eq_maxHeight hlow
        · rw [hsame.height_eq, h.header]
          exact hlevel
        · intro p hp
          rw [hsame.height_eq]
          exact hheights p (by simp only [List.mem_append, List.mem_cons] at hp ⊢; tauto)
        · intro i hi
          have hlevelChain := hchain i (by omega)
          rw [h.onLevel_header (by omega)] at hlevelChain
          rw [onLevel_congr i fun p _ => congrFun hsame.height_eq p]
          exact hlevelChain.2.head?_eq
      refine ⟨_, some d, x, temp, A, d :: rest, ?_, rfl, hsearch,
        Or.inl ⟨d, rest, rfl, hfound, rfl, hdel, hrep⟩⟩
      simp [delNode, getScore_eq hsnode, hrun, hfirst, getScore_eq hd, hfound, hunlink, hshrink,
        SkipListTimer.afterDelete, freeNode]
    · refine ⟨s, none, x, temp, A, d :: rest, ?_, rfl, hsearch, Or.inr ⟨rfl, rfl, ?_⟩⟩
      · simp [delNode, getScore_eq hsnode, hrun, hfirst, getScore_eq hd, hfound]
      · intro e he
        obtain rfl : d = e := by simpa using he
        exact hfound

end CppProject.SkipListTimer
