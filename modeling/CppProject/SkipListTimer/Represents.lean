import CppProject.SkipListTimer.Descent
import CppProject.SkipListTimer.Links
import Mathlib.Data.List.Perm.Subperm
import Mathlib.Order.Lattice

/-!
# The list object represents a sequence of nodes

`Represents s order` ties the 32 linked lists to one sequence of nodes, the bottom level: on
level `i` the header is followed by the nodes of the sequence whose height exceeds `i`. Every
operation is specified by what it does to the sequence, for arbitrary scores: an insertion
puts the new node at the split its search found, a deletion removes the node behind the split
or nothing.
-/

namespace CppProject.SkipListTimer

open PointerChain

variable {H : Type*}

/-- The greatest height in the sequence, at least 1. -/
def maxHeight (heap : Heap H) (order : List NodePtr) : ℕ := (order.map (height heap)).foldr max 1

/-- A bound on the heights of all nodes. -/
theorem maxHeight_le_iff {heap : Heap H} {order : List NodePtr} {n : ℕ} :
    maxHeight heap order ≤ n ↔ 1 ≤ n ∧ ∀ p ∈ order, height heap p ≤ n := by
  induction order with
  | nil => simp [maxHeight]
  | cons p order ih =>
    rw [maxHeight, List.map_cons, List.foldr_cons, max_le_iff, ← maxHeight, ih]
    simp only [List.forall_mem_cons]
    tauto

/-- Heights within the sequence decide which nodes a level links. -/
theorem onLevel_congr {heap heap' : Heap H} {nodes : List NodePtr} (i : ℕ)
    (h : ∀ p ∈ nodes, height heap' p = height heap p) : onLevel heap' i nodes = onLevel heap i nodes :=
  List.filter_congr fun p hp => by rw [h p hp]

/-- The list object represents the bottom-level sequence `order`. -/
structure Represents (s : SkipList H) (order : List NodePtr) : Prop where
  chain : ∀ i < skiplistMaxlevel,
    Chain (next s.heap i) (some s.mHeader) (onLevel s.heap i (s.mHeader :: order))
  header : height s.heap s.mHeader = skiplistMaxlevel
  nodes : ∀ p, (s.heap p).isSome ↔ p = s.mHeader ∨ p ∈ order
  heights : ∀ p ∈ order, 1 ≤ height s.heap p ∧ height s.heap p ≤ skiplistMaxlevel
  fresh : ∀ p, (s.heap p).isSome → p < s.fresh
  level : s.mLevel = maxHeight s.heap order
  length : s.mLength = order.length

/-- The predecessor a split determines on a level: the last node behind it that is linked there. -/
def predecessor (s : SkipList H) (A : List NodePtr) (i : ℕ) : NodePtr :=
  ((onLevel s.heap i (s.mHeader :: A)).getLast?).getD s.mHeader

namespace Represents

variable {s : SkipList H} {order : List NodePtr}

/-- The header is linked on every level. -/
theorem onLevel_header (h : Represents s order) {i : ℕ} (hi : i < skiplistMaxlevel)
    (nodes : List NodePtr) :
    onLevel s.heap i (s.mHeader :: nodes) = s.mHeader :: onLevel s.heap i nodes :=
  onLevel_cons_of_lt (by rw [h.header]; exact hi) nodes

/-- Every node is linked on the bottom level. -/
theorem onLevel_zero (h : Represents s order) {nodes : List NodePtr} (hsub : nodes ⊆ order) :
    onLevel s.heap 0 nodes = nodes :=
  List.filter_eq_self.mpr fun p hp => decide_eq_true (h.heights p (hsub hp)).1

/-- No node occurs twice, and the header is not among them. -/
theorem nodup (h : Represents s order) : (s.mHeader :: order).Nodup := by
  have hchain := (h.chain 0 (by decide)).nodup
  rwa [h.onLevel_header (by decide), h.onLevel_zero (List.Subset.refl _)] at hchain

/-- The address of the next node is not in use. -/
theorem fresh_not_mem (h : Represents s order) : s.fresh ∉ s.mHeader :: order := fun hmem =>
  absurd (h.fresh s.fresh ((h.nodes s.fresh).mpr (List.mem_cons.mp hmem))) (lt_irrefl _)

/-- Every walk along a level ends within the fuel. -/
theorem length_lt_fuel (h : Represents s order) : order.length < s.fuel := by
  have hsub : order ⊆ List.range s.fresh := fun p hp =>
    List.mem_range.mpr (h.fresh p ((h.nodes p).mpr (Or.inr hp)))
  have hle := (List.subperm_of_subset (List.nodup_cons.mp h.nodup).2 hsub).length_le
  rw [List.length_range] at hle
  exact Nat.lt_succ_of_le hle

/-- `m_level` bounds every height and stays within the array. -/
theorem level_bounds (h : Represents s order) :
    1 ≤ s.mLevel ∧ s.mLevel ≤ skiplistMaxlevel ∧ ∀ p ∈ order, height s.heap p ≤ s.mLevel := by
  have hself := maxHeight_le_iff.mp (le_of_eq h.level.symm)
  refine ⟨hself.1, ?_, hself.2⟩
  rw [h.level, maxHeight_le_iff]
  exact ⟨by decide, fun p hp => (h.heights p hp).2⟩

/-- Levels from `m_level` on link nothing. -/
theorem onLevel_eq_nil (h : Represents s order) {i : ℕ} (hi : s.mLevel ≤ i) {nodes : List NodePtr}
    (hsub : nodes ⊆ order) : onLevel s.heap i nodes = [] := by
  refine List.filter_eq_nil_iff.mpr fun p hp => ?_
  have := h.level_bounds.2.2 p (hsub hp)
  simp only [decide_eq_true_eq]
  omega

/-- The first node on a level is the first of the sequence linked there. -/
theorem next_header (h : Represents s order) {i : ℕ} (hi : i < skiplistMaxlevel) :
    next s.heap i s.mHeader = (onLevel s.heap i order).head? := by
  have hchain := h.chain i hi
  rw [h.onLevel_header hi] at hchain
  exact hchain.2.head?_eq

/-- Any search from the header succeeds and splits the sequence. -/
theorem search (h : Represents s order) (target : BitVec 64) :
    ∃ x temp A B, descend s.heap target s.fuel s.mLevel s.mHeader (fun _ => none) = some (x, temp) ∧
      order = A ++ B ∧ Search s.heap target s.mHeader s.mLevel A B x temp := by
  have hlevel := h.level_bounds.2.1
  exact descend_spec target _ (fun k hk => h.chain k (by omega)) (by rw [h.header]; exact hlevel)
    h.length_lt_fuel

/-- The part of a level behind the split ends in the predecessor. -/
theorem onLevel_eq_concat (h : Represents s order) {i : ℕ} (hi : i < skiplistMaxlevel)
    (A : List NodePtr) :
    ∃ before, onLevel s.heap i (s.mHeader :: A) = before ++ [predecessor s A i] := by
  have hne : onLevel s.heap i (s.mHeader :: A) ≠ [] := by simp [h.onLevel_header hi]
  refine ⟨(onLevel s.heap i (s.mHeader :: A)).dropLast, ?_⟩
  rw [predecessor, List.getLast?_eq_some_getLast hne, Option.getD_some, List.dropLast_append_getLast]

/-- The predecessor is linked on its level, and is the header or a node behind the split. -/
theorem predecessor_mem (h : Represents s order) {i : ℕ} (hi : i < skiplistMaxlevel)
    (A : List NodePtr) :
    predecessor s A i ∈ s.mHeader :: A ∧ i < height s.heap (predecessor s A i) := by
  obtain ⟨before, hbefore⟩ := h.onLevel_eq_concat hi A
  exact mem_onLevel.mp (hbefore ▸ by simp)

/-- The chain of a level, cut at the split. -/
theorem chain_split {A B : List NodePtr} (h : Represents s (A ++ B)) {i : ℕ}
    (hi : i < skiplistMaxlevel) :
    ∃ before, onLevel s.heap i (s.mHeader :: A) = before ++ [predecessor s A i] ∧
      Chain (next s.heap i) (some s.mHeader) (before ++ predecessor s A i :: onLevel s.heap i B) := by
  obtain ⟨before, hbefore⟩ := h.onLevel_eq_concat hi A
  refine ⟨before, hbefore, ?_⟩
  have hchain := h.chain i hi
  rw [← List.cons_append, onLevel_append, hbefore, List.append_assoc] at hchain
  exact hchain

/-- The recorded predecessors are the ones the split determines. -/
theorem temp_eq (h : Represents s order) {A B : List NodePtr} {x : NodePtr} {temp : Temp}
    {target : BitVec 64} (hsearch : Search s.heap target s.mHeader s.mLevel A B x temp)
    {i : ℕ} (hi : i < s.mLevel) : temp i = some (predecessor s A i) := by
  have hlevel := h.level_bounds.2.1
  obtain ⟨before, hbefore⟩ := h.onLevel_eq_concat (by omega : i < skiplistMaxlevel) A
  rw [hsearch.pred i hi, hbefore, List.getLast?_concat]

end Represents

end CppProject.SkipListTimer
