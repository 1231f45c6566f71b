import CppProject.SkipListTimer.Represents

/-!
# What an insertion does to the represented sequence

`Insert_node` puts the new node at the split its search found, with the requested height and
the sign-extended score, and changes no other node. No assumption on the scores is needed.
-/

namespace CppProject.SkipListTimer

open PointerChain

variable {H : Type*} {s s' : SkipList H} {order A B : List NodePtr}

/-- The heap with a new node at the next address. -/
def allocNode (s : SkipList H) (node : SkipListNode H) : Heap H :=
  Function.update s.heap s.fresh (some node)

/-- The other nodes are as before. -/
theorem allocNode_of_ne (s : SkipList H) (node : SkipListNode H) {p : NodePtr} (hp : p ≠ s.fresh) :
    allocNode s node p = s.heap p := Function.update_of_ne hp _ _

/-- The height of the new node. -/
theorem height_allocNode_self (s : SkipList H) (score : BitVec 32) (newlevel : ℕ) (handler : H) :
    height (allocNode s (SkipListNode.new score newlevel handler)) s.fresh = newlevel := by
  simp [height, allocNode, SkipListNode.new]

/-- The heights of the other nodes. -/
theorem height_allocNode_of_ne (s : SkipList H) (node : SkipListNode H) {p : NodePtr}
    (hp : p ≠ s.fresh) : height (allocNode s node) p = height s.heap p := by
  rw [height, allocNode_of_ne s node hp, ← height]

/-- The links of the other nodes. -/
theorem next_allocNode_of_ne (s : SkipList H) (node : SkipListNode H) (i : ℕ) {p : NodePtr}
    (hp : p ≠ s.fresh) : next (allocNode s node) i p = next s.heap i p := by
  rw [next, getNextNodeOfLevel, allocNode_of_ne s node hp, ← getNextNodeOfLevel, ← next]

/-- What an insertion changes besides links: one node more, the others as they were. -/
structure Inserted (s s' : SkipList H) (score : BitVec 32) (newlevel : ℕ) (handler : H) : Prop where
  header : s'.mHeader = s.mHeader
  fresh : s'.fresh = s.fresh + 1
  self : (s'.heap s.fresh).map SkipListNode.shape = some (score.signExtend 64, handler, newlevel)
  others : ∀ p, p ≠ s.fresh →
    (s'.heap p).map SkipListNode.shape = (s.heap p).map SkipListNode.shape

namespace Inserted

variable {score : BitVec 32} {newlevel : ℕ} {handler : H}

/-- The inserted node has the height that was drawn. -/
theorem height_self (h : Inserted s s' score newlevel handler) :
    height s'.heap s.fresh = newlevel := by
  rw [height_eq_shape, h.self]
  rfl

/-- The inserted node has the score, with its sign. -/
theorem score_self (h : Inserted s s' score newlevel handler) :
    SkipListTimer.score s'.heap s.fresh = score.signExtend 64 := by
  rw [score_eq_shape, h.self]
  rfl

/-- The other nodes keep their heights. -/
theorem height_of_ne (h : Inserted s s' score newlevel handler) {p : NodePtr} (hp : p ≠ s.fresh) :
    height s'.heap p = height s.heap p := by
  rw [height_eq_shape, height_eq_shape, h.others p hp]

/-- The other nodes keep their scores. -/
theorem score_of_ne (h : Inserted s s' score newlevel handler) {p : NodePtr} (hp : p ≠ s.fresh) :
    SkipListTimer.score s'.heap p = SkipListTimer.score s.heap p := by
  rw [score_eq_shape, score_eq_shape, h.others p hp]

/-- The nodes after an insertion are those before it and the new one. -/
theorem isSome_iff (h : Inserted s s' score newlevel handler) (p : NodePtr) :
    (s'.heap p).isSome ↔ p = s.fresh ∨ (s.heap p).isSome := by
  by_cases hp : p = s.fresh
  · subst hp
    simpa using congrArg Option.isSome h.self
  · have := congrArg Option.isSome (h.others p hp)
    simp only [Option.isSome_map] at this
    simp [hp, this]

/-- On every level the new node is linked exactly below its height, at the split. -/
theorem onLevel_eq (h : Inserted s s' score newlevel handler) (hfresh : s.fresh ∉ s.mHeader :: (A ++ B))
    (i : ℕ) :
    onLevel s'.heap i (s'.mHeader :: (A ++ s.fresh :: B)) =
      onLevel s.heap i (s.mHeader :: A) ++
        (if i < newlevel then s.fresh :: onLevel s.heap i B else onLevel s.heap i B) := by
  have hsame : ∀ nodes ⊆ s.mHeader :: (A ++ B), onLevel s'.heap i nodes = onLevel s.heap i nodes :=
    fun nodes hsub => onLevel_congr i fun p hp => h.height_of_ne fun heq => hfresh (heq ▸ hsub hp)
  rw [h.header, ← List.cons_append, onLevel_append, hsame _ (by simp)]
  split
  · rw [onLevel_cons_of_lt (p := s.fresh) (by rw [h.height_self]; assumption), hsame B (by simp)]
  · rw [onLevel_cons_of_le (p := s.fresh) (by rw [h.height_self]; omega), hsame B (by simp)]

/-- The greatest height after an insertion. -/
theorem maxHeight_eq (h : Inserted s s' score newlevel handler) (hfresh : s.fresh ∉ A ++ B) :
    maxHeight s'.heap (A ++ s.fresh :: B) = max newlevel (maxHeight s.heap (A ++ B)) := by
  refine eq_of_forall_ge_iff fun n => ?_
  rw [max_le_iff, maxHeight_le_iff, maxHeight_le_iff]
  have hsame : (∀ p ∈ A ++ s.fresh :: B, height s'.heap p ≤ n) ↔
      newlevel ≤ n ∧ ∀ p ∈ A ++ B, height s.heap p ≤ n := by
    constructor
    · intro hall
      refine ⟨h.height_self ▸ hall s.fresh (by simp), fun p hp => ?_⟩
      rw [← h.height_of_ne fun heq => hfresh (heq ▸ hp)]
      exact hall p (by simp only [List.mem_append, List.mem_cons] at hp ⊢; tauto)
    · intro ⟨hself, hall⟩ p hp
      by_cases heq : p = s.fresh
      · rw [heq, h.height_self]
        exact hself
      · rw [h.height_of_ne heq]
        exact hall p (by simp only [List.mem_append, List.mem_cons] at hp ⊢; tauto)
  rw [hsame]
  tauto

end Inserted

/-- Every entry of `temp` that the linking loop reads is the split's predecessor: above the
old `m_level` it is the header, which is all that is linked there. -/
theorem Represents.temp_filled (h : Represents s (A ++ B)) {x : NodePtr} {temp : Temp}
    {target : BitVec 64} (hsearch : Search s.heap target s.mHeader s.mLevel A B x temp)
    {newlevel i : ℕ} (hhigh : newlevel ≤ skiplistMaxlevel) (hi : i < newlevel) :
    (if newlevel > s.mLevel then fillTemp s.mHeader s.mLevel (newlevel - s.mLevel) temp else temp) i =
      some (predecessor s A i) := by
  by_cases hbelow : i < s.mLevel
  · rw [← h.temp_eq hsearch hbelow]
    split
    · rw [fillTemp_apply, if_neg (by omega)]
    · rfl
  · have hempty : onLevel s.heap i A = [] := h.onLevel_eq_nil (by omega) (by simp)
    rw [if_pos (by omega), fillTemp_apply, if_pos (by omega), predecessor,
      h.onLevel_header (by omega), hempty]
    rfl

/-- The linking loop, run on the heap with the new node. -/
theorem Represents.link_levels (h : Represents s (A ++ B)) {temp : Temp} (score : BitVec 32)
    {newlevel : ℕ} (handler : H) (hhigh : newlevel ≤ skiplistMaxlevel)
    (htemp : ∀ i < newlevel, temp i = some (predecessor s A i)) :
    ∃ heap', forLevels (linkLevel s.fresh temp) newlevel
        (allocNode s (SkipListNode.new score newlevel handler)) = some heap' ∧
      EditsLevels (allocNode s (SkipListNode.new score newlevel handler)) (fun i => Function.update
        (Function.update (next (allocNode s (SkipListNode.new score newlevel handler)) i) s.fresh
          (next (allocNode s (SkipListNode.new score newlevel handler)) i (predecessor s A i)))
        (predecessor s A i) (some s.fresh)) newlevel heap' := by
  apply forLevels_linkLevel_spec htemp
  · intro i hi
    obtain ⟨hmem, hlt⟩ := h.predecessor_mem (by omega : i < skiplistMaxlevel) A
    have hne : predecessor s A i ≠ s.fresh := fun heq => h.fresh_not_mem (by
      rw [← heq]
      simp only [List.mem_cons, List.mem_append] at hmem ⊢
      tauto)
    rw [height_allocNode_of_ne s _ hne]
    exact hlt
  · rw [height_allocNode_self]

/-- The chains after the linking loop. -/
theorem Represents.chain_linked (h : Represents s (A ++ B)) {node : SkipListNode H} {i : ℕ}
    (hi : i < skiplistMaxlevel) :
    Chain (Function.update (Function.update (next (allocNode s node) i) s.fresh
        (next (allocNode s node) i (predecessor s A i))) (predecessor s A i) (some s.fresh))
      (some s.mHeader)
      (onLevel s.heap i (s.mHeader :: A) ++ s.fresh :: onLevel s.heap i B) := by
  obtain ⟨before, hbefore, hchain⟩ := h.chain_split hi
  have hfresh : s.fresh ∉ before ++ predecessor s A i :: onLevel s.heap i B := fun hmem => by
    have hsplit : onLevel s.heap i (s.mHeader :: (A ++ B)) =
        before ++ predecessor s A i :: onLevel s.heap i B := by
      rw [← List.cons_append, onLevel_append, hbefore, List.append_assoc]
      rfl
    exact h.fresh_not_mem (mem_onLevel.mp (hsplit ▸ hmem)).1
  have halloc : Chain (next (allocNode s node) i) (some s.mHeader)
      (before ++ predecessor s A i :: onLevel s.heap i B) :=
    hchain.congr fun p hp => next_allocNode_of_ne s node i fun heq => hfresh (heq ▸ hp)
  rw [hbefore, List.append_assoc]
  exact halloc.link hfresh

/-- `Insert_node` succeeds and inserts the new node at the split found by its search. -/
theorem Represents.insertNode_spec (h : Represents s order) (score : BitVec 32) {newlevel : ℕ}
    (hlow : 1 ≤ newlevel) (hhigh : newlevel ≤ skiplistMaxlevel) (handler : H) :
    ∃ s' x temp A B, insertNode s score newlevel handler = some (s', s.fresh) ∧ order = A ++ B ∧
      Search s.heap (score.setWidth 64) s.mHeader s.mLevel A B x temp ∧
      Inserted s s' score newlevel handler ∧ Represents s' (A ++ s.fresh :: B) := by
  obtain ⟨x, temp, A, B, hrun, rfl, hsearch⟩ := h.search (score.setWidth 64)
  obtain ⟨heap', hlink, hsame, hedit, hkeep⟩ := h.link_levels score handler hhigh
    fun i hi => h.temp_filled hsearch hhigh hi
  let s' : SkipList H :=
    { s with mLength := s.mLength + 1, mLevel := if newlevel > s.mLevel then newlevel else s.mLevel,
             heap := heap', fresh := s.fresh + 1 }
  have hinsert : insertNode s score newlevel handler = some (s', s.fresh) := by
    rw [insertNode, hrun, Option.bind_some]
    dsimp only
    rw [← allocNode, hlink]
    rfl
  have hins : Inserted s s' score newlevel handler := by
    refine ⟨rfl, rfl, ?_, fun p hp => ?_⟩
    · exact (hsame s.fresh).trans (by simp [allocNode, SkipListNode.new, SkipListNode.shape])
    · exact (hsame p).trans (by rw [allocNode_of_ne s _ hp])
  have hfresh := h.fresh_not_mem
  refine ⟨s', x, temp, A, B, hinsert, rfl, hsearch, hins, ?_, ?_, ?_, ?_, ?_, ?_, ?_⟩
  · intro i hi
    rw [hins.onLevel_eq hfresh]
    by_cases hlink : i < newlevel
    · rw [if_pos hlink]
      exact (hedit i hlink) ▸ h.chain_linked hi
    · rw [if_neg hlink, ← onLevel_append, List.cons_append]
      refine (h.chain i hi).congr fun p hp => ?_
      rw [hkeep i (by omega)]
      exact next_allocNode_of_ne s _ i fun heq => hfresh (heq ▸ (mem_onLevel.mp hp).1)
  · rw [hins.header, hins.height_of_ne fun heq => hfresh (heq ▸ List.mem_cons_self), h.header]
  · intro p
    rw [hins.isSome_iff, h.nodes, hins.header]
    simp only [List.mem_append, List.mem_cons]
    tauto
  · intro p hp
    by_cases heq : p = s.fresh
    · rw [heq, hins.height_self]
      exact ⟨hlow, hhigh⟩
    · rw [hins.height_of_ne heq]
      exact h.heights p (by simp only [List.mem_append, List.mem_cons] at hp ⊢; tauto)
  · intro p hp
    rcases (hins.isSome_iff p).mp hp with heq | hold
    · exact heq ▸ Nat.lt_succ_self _
    · exact (h.fresh p hold).trans (Nat.lt_succ_self _)
  · rw [hins.maxHeight_eq fun hmem => hfresh (List.mem_cons_of_mem _ hmem), ← h.level]
    change (if newlevel > s.mLevel then newlevel else s.mLevel) = max newlevel s.mLevel
    split <;> omega
  · change s.mLength + 1 = _
    rw [h.length]
    simp only [List.length_append, List.length_cons]
    omega

end CppProject.SkipListTimer
