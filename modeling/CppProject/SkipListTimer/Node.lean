import Mathlib.Data.BitVec
import Mathlib.Logic.Function.Basic

/-!
# Skip-list nodes on the heap

A node owns an array of 32 pointers to level objects, of which its constructor assigns the
first `level` ones. The model keeps exactly the assigned slots, each with the `m_next` of its
level object; an access to a higher slot, or through a pointer to no node, has no result.

Besides the accessors of the source there are total views `height`, `score` and `next`, and
one specification of a link write in terms of them.
-/

namespace CppProject.SkipListTimer

/-- The length of a node's slot array. -/
def skiplistMaxlevel : ℕ := 32

/-- Addresses of nodes; the null pointer is `none` in `Option NodePtr`. -/
abbrev NodePtr := ℕ

/-- A node, with the slots its constructor assigned. -/
structure SkipListNode (H : Type*) where
  mScore : BitVec 64
  mHandle : H
  mLevel : List (Option NodePtr)

variable {H : Type*}

/-- The constructor takes the score as an `int`, which the `unsigned long` field sign-extends. -/
def SkipListNode.new (score : BitVec 32) (level : ℕ) (handler : H) : SkipListNode H where
  mScore := score.signExtend 64
  mHandle := handler
  mLevel := List.replicate level none

/-- The nodes created by `new` and not yet deleted. -/
abbrev Heap (H : Type*) := NodePtr → Option (SkipListNode H)

/-- `x->GetScore()`. -/
def getScore (heap : Heap H) (x : NodePtr) : Option (BitVec 64) := (heap x).map SkipListNode.mScore

/-- `x->GetNextNodeOfLevel(level)`, without a result when the slot was never assigned. -/
def getNextNodeOfLevel (heap : Heap H) (x : NodePtr) (level : ℕ) : Option (Option NodePtr) :=
  (heap x).bind fun node => node.mLevel[level]?

/-- `x->SetNextNodeOfLevel(level, tmp)`, without a result when the slot was never assigned. -/
def setNextNodeOfLevel (heap : Heap H) (x : NodePtr) (level : ℕ) (tmp : Option NodePtr) :
    Option (Heap H) :=
  (heap x).bind fun node =>
    if level < node.mLevel.length then
      some (Function.update heap x (some { node with mLevel := node.mLevel.set level tmp }))
    else none

/-- The number of slots the node's constructor assigned. -/
def height (heap : Heap H) (x : NodePtr) : ℕ := ((heap x).map fun node => node.mLevel.length).getD 0

/-- The stored score, zero where there is no node. -/
def score (heap : Heap H) (x : NodePtr) : BitVec 64 := (getScore heap x).getD 0

/-- The link on one level, null where the slot is unassigned. -/
def next (heap : Heap H) (level : ℕ) (x : NodePtr) : Option NodePtr :=
  (getNextNodeOfLevel heap x level).getD none

/-- What a link write never changes of a node: score, handler and number of slots. -/
def SkipListNode.shape (node : SkipListNode H) : BitVec 64 × H × ℕ :=
  (node.mScore, node.mHandle, node.mLevel.length)

/-- Two heaps with the same nodes, up to the values of their links. -/
def SameNodes (heap heap' : Heap H) : Prop :=
  ∀ x, (heap' x).map SkipListNode.shape = (heap x).map SkipListNode.shape

/-- A heap has its own nodes. -/
theorem SameNodes.refl (heap : Heap H) : SameNodes heap heap := fun _ => rfl

/-- Two changes of links make one. -/
theorem SameNodes.trans {heap heap' heap'' : Heap H} (h : SameNodes heap heap')
    (h' : SameNodes heap' heap'') : SameNodes heap heap'' := fun x => (h' x).trans (h x)

/-- The height is part of a node's shape. -/
theorem height_eq_shape (heap : Heap H) (x : NodePtr) :
    height heap x = (((heap x).map SkipListNode.shape).map fun shape => shape.2.2).getD 0 := by
  rw [Option.map_map]
  rfl

/-- The score is part of a node's shape. -/
theorem score_eq_shape (heap : Heap H) (x : NodePtr) :
    score heap x = (((heap x).map SkipListNode.shape).map Prod.fst).getD 0 := by
  rw [Option.map_map]
  rfl

/-- The heights are the same. -/
theorem SameNodes.height_eq {heap heap' : Heap H} (h : SameNodes heap heap') :
    height heap' = height heap := by
  funext x
  rw [height_eq_shape, height_eq_shape, h x]

/-- Only an existing node has assigned slots. -/
theorem isSome_of_lt_height {heap : Heap H} {x : NodePtr} {level : ℕ} (h : level < height heap x) :
    (heap x).isSome := by
  cases hx : heap x with
  | none => simp [height, hx] at h
  | some node => rfl

/-- The score of an existing node can be read. -/
theorem getScore_eq {heap : Heap H} {x : NodePtr} (h : (heap x).isSome) :
    getScore heap x = some (score heap x) := by
  obtain ⟨node, hx⟩ := Option.isSome_iff_exists.mp h
  simp [score, getScore, hx]

/-- An assigned slot can be read. -/
theorem getNextNodeOfLevel_eq {heap : Heap H} {x : NodePtr} {level : ℕ} (h : level < height heap x) :
    getNextNodeOfLevel heap x level = some (next heap level x) := by
  obtain ⟨node, hx⟩ := Option.isSome_iff_exists.mp (isSome_of_lt_height h)
  have hlen : level < node.mLevel.length := by simpa [height, hx] using h
  simp [next, getNextNodeOfLevel, hx, hlen]

/-- An assigned slot can be written: the link of that node on that level changes, nothing else. -/
theorem setNextNodeOfLevel_spec {heap : Heap H} {x : NodePtr} {level : ℕ}
    (h : level < height heap x) (tmp : Option NodePtr) :
    ∃ heap', setNextNodeOfLevel heap x level tmp = some heap' ∧ SameNodes heap heap' ∧
      next heap' level = Function.update (next heap level) x tmp ∧
      ∀ j, j ≠ level → next heap' j = next heap j := by
  obtain ⟨node, hx⟩ := Option.isSome_iff_exists.mp (isSome_of_lt_height h)
  have hlen : level < node.mLevel.length := by simpa [height, hx] using h
  refine ⟨_, by rw [setNextNodeOfLevel, hx, Option.bind_some, if_pos hlen], ?_, ?_, ?_⟩
  · intro y
    by_cases hy : y = x
    · subst hy
      simp [hx, SkipListNode.shape]
    · rw [Function.update_of_ne hy]
  · funext y
    by_cases hy : y = x
    · subst hy
      simp [next, getNextNodeOfLevel, hlen]
    · simp [next, getNextNodeOfLevel, Function.update_of_ne hy]
  · intro j hj
    funext y
    by_cases hy : y = x
    · subst hy
      simp [next, getNextNodeOfLevel, hx, List.getElem?_set_ne (Ne.symm hj)]
    · simp [next, getNextNodeOfLevel, Function.update_of_ne hy]

end CppProject.SkipListTimer
