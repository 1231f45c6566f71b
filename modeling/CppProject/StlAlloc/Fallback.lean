import CppProject.StlAlloc.MallocFailure

/-!
# The larger free lists after a failure of `malloc`

The loop that `_S_chunk_alloc` runs after a failure of `malloc` visits the lists of the request's
class and above, and makes the first block of each the pool. It never returns to serve the request
from such a pool: every round replaces the pool of the round before, and the retry replaces the
last. So the request is served by `malloc` or not at all, and one block of each list is dropped.
-/

namespace CppProject.StlAlloc

open AddressInterval PointerChain Transition

variable {w w' : World} {blocks : Fin nFreelists → List ℕ} {lost : List Interval} {n : ℕ} {answers : List ℕ}

/-- The list of the request's class is empty, and the pool is smaller than the class. -/
structure Exhausted (w : World) (n : ℕ) : Prop where
  list : (freeListOf n).map w.arena.sFreeList = some 0
  pool : w.arena.bytesLeft < sRoundUp n

/-- The lists are chains of these blocks. -/
def Listed (w : World) (blocks : Fin nFreelists → List ℕ) : Prop :=
  ∀ k, Chain (fun p => ptr (w.arena.link p)) (ptr (w.arena.sFreeList k)) (blocks k)

/-- The request was served from a block of its class or above, and every other block is still on a
list or in the pool. -/
def ServedFromLists (w : World) (blocks : Fin nFreelists → List ℕ) (n : ℕ) (w' : World) : Prop :=
  ∃ k, ∃ p ∈ blocks k, sRoundUp n ≤ classSize k ∧ w'.held = (p, n) :: w.held ∧
    ∃ blocks', Listed w' blocks' ∧ ∀ i ∈ freeBlocks blocks, i ≠ freeBlock k p →
      ∀ x, i.Mem x → ∃ j ∈ freeBlocks blocks' ++ [w'.arena.pool], j.Mem x

/-- If a list of the request's class or above has a block, the request is served from one. -/
def FallsBack (w : World) (blocks : Fin nFreelists → List ℕ) (n : ℕ) (w' : World) : Prop :=
  (∃ k, sRoundUp n ≤ classSize k ∧ blocks k ≠ []) → ServedFromLists w blocks n w'

/-- No byte of the interval is held, listed or in the pool. -/
def Dropped (w : World) (i : Interval) : Prop :=
  ∀ blocks, Listed w blocks → ∀ j ∈ parts w blocks, i.Disjoint j

/-- The blocks of a chain are determined. -/
theorem Listed.unique {blocks' : Fin nFreelists → List ℕ} (h : Listed w blocks) (h' : Listed w blocks') :
    blocks = blocks' := funext fun k => (h k).unique (h' k)

/-- What is lost is dropped. -/
theorem Owned.dropped (h : Owned w blocks lost) {i : Interval} (hi : i ∈ lost) : Dropped w i := by
  intro blocks' hlisted j hj
  obtain rfl : blocks = blocks' := Listed.unique h.valid.lists.chain hlisted
  have hdisjoint := h.tiles.pairwise_disjoint h.valid.lists.malloc.disjoint
  obtain ⟨-, -, hcross⟩ := List.pairwise_append.mp hdisjoint
  exact fun x hx hjx => hcross j hj i hi x hjx hx

/-- A new region starts inside no free block. -/
theorem Owned.not_mem_of_regions (h : Owned w blocks lost) {p bytes : ℕ} (hbytes : 0 < bytes)
    (hmalloc : MallocOk (⟨p, bytes⟩ :: w.arena.regions)) (k : Fin nFreelists) : p ∉ blocks k := by
  intro hp
  have hsize := (classSize_bounds k).1
  have hlisted : freeBlock k p ∈ parts w blocks :=
    List.mem_append_left _ (List.mem_append_right _ (mem_freeBlocks.mpr ⟨k, p, hp, rfl⟩))
  obtain ⟨r, hr, hmem⟩ := (h.tiles.mem_iff p).mp
    ⟨_, List.mem_append_left _ hlisted, le_rfl, by simp only [freeBlock]; omega⟩
  exact (List.pairwise_cons.mp hmalloc.disjoint).1 r hr p ⟨le_rfl, by simp only; omega⟩ hmem

/-- The first blocks of the larger lists are dropped. -/
theorem Owned.firsts_dropped (h : Owned w blocks lost) (hexhausted : Exhausted w n)
    (hstep : Step w (.allocate n (0 :: answers)) w') (hretry : answers.head? ≠ some 0) {k : Fin nFreelists}
    {p : ℕ} {rest : List ℕ} (hk : sRoundUp n ≤ classSize k) (hblocks : blocks k = p :: rest) :
    Dropped w' (freeBlock k p) := by
  have hok : ¬ MallocFailsTwice w (.allocate n (0 :: answers)) := fun ⟨_, _, after, hpre⟩ => hretry (by
    rw [← (List.cons.inj hpre).2]
    rfl)
  obtain ⟨j, hj, hsize⟩ := freeListOf_eq hstep.1.1 hstep.1.2
  obtain ⟨hempty, hless⟩ := hexhausted
  rw [hj, Option.map_some, Option.some.injEq] at hempty
  rw [← hsize] at hk hless
  obtain ⟨blocks', lost', howned, -, hfirsts⟩ := h.step hstep hok
  have hlost : freeBlock k p ∈ lost' := hfirsts n answers j rfl hj hempty hless k p rest hk hblocks
  exact howned.dropped (List.mem_append_left _ hlost)

/-- The block returned is never one of the lists. -/
theorem Owned.not_servedFromLists (h : Owned w blocks lost) (hexhausted : Exhausted w n)
    (hstep : Step w (.allocate n (0 :: answers)) w') : ¬ ServedFromLists w blocks n w' := by
  intro ⟨k, p, hp, _, hheld, _⟩
  obtain ⟨⟨hpos, hle⟩, hexec, hmalloc⟩ := hstep
  rw [Call.exec] at hexec
  obtain ⟨⟨q, s⟩, hout, rfl⟩ := Option.map_eq_some_iff.mp hexec
  obtain ⟨-, -, bytes, hbytes, hregions⟩ :=
    h.valid.allocate_retry hpos hle hexhausted.list hexhausted.pool hout
  by_cases hq : q = 0
  · simp only [if_pos hq] at hheld
    exact List.cons_ne_self _ _ hheld.symm
  · simp only [if_neg hq, List.cons.injEq, Prod.mk.injEq, and_true] at hheld
    subst hheld
    rw [if_neg hq] at hregions
    simp only [hregions] at hmalloc
    exact h.not_mem_of_regions hbytes hmalloc k hp

/-- After a refusal of `malloc` the request is never served from the larger lists, and unless the
retry is refused too, each of them that has a block loses its first. -/
theorem fallsBack_iff_no_block (h : Owned w blocks lost) (hexhausted : Exhausted w n)
    (hstep : Step w (.allocate n (0 :: answers)) w') :
    (FallsBack w blocks n w' ↔ ∀ k, sRoundUp n ≤ classSize k → blocks k = []) ∧ (answers.head? ≠ some 0 →
      ∀ k p rest, sRoundUp n ≤ classSize k → blocks k = p :: rest → Dropped w' (freeBlock k p)) := by
  refine ⟨⟨fun hfalls k hk => ?_, fun hnone ⟨k, hk, hblock⟩ => absurd (hnone k hk) hblock⟩,
    fun hretry k p rest hk hblocks => h.firsts_dropped hexhausted hstep hretry hk hblocks⟩
  by_contra hblock
  exact h.not_servedFromLists hexhausted hstep (hfalls ⟨k, hk, hblock⟩)

/-- After these calls the list of 128-byte blocks has the block at 4256, the list of 64-byte blocks is
empty and the pool has 32 bytes. -/
def leadUp : List Call := [.allocate 8 [4096], .allocate 128 [], .deallocate 4256 128]

/-- What a request of 64 bytes then does when `malloc` refuses it. -/
theorem refused_after_leadUp {retry : ℕ} {held : List (ℕ × ℕ)}
    (h : (Transition.replay (Transition.guard (fun w call => ¬ MallocFailsTwice w call) Call.check)
      (World.new fun _ => 0) leadUp).bind (fun w => (Call.check w (.allocate 64 [0, retry])).map fun w' =>
        decide ((freeListOf 64).map w.arena.sFreeList = some 0 ∧ w.arena.bytesLeft < sRoundUp 64 ∧
          w.arena.sFreeList ⟨15, by decide⟩ = 4256 ∧ w.held = [(4096, 8)] ∧ w'.held = held)) = some true) :
    ∃ w blocks lost w', Owned w blocks lost ∧ Exhausted w 64 ∧ Step w (.allocate 64 [0, retry]) w' ∧
      (∃ rest, blocks ⟨15, by decide⟩ = 4256 :: rest) ∧ w.held = [(4096, 8)] ∧ w'.held = held := by
  obtain ⟨w, hrun, hnext⟩ := Option.bind_eq_some_iff.mp h
  obtain ⟨w', hcheck, hfacts⟩ := Option.map_eq_some_iff.mp hnext
  obtain ⟨hempty, hless, hlist, hheld, hheld'⟩ := of_decide_eq_true hfacts
  obtain ⟨blocks, lost, howned⟩ := Reachable.owned
    (Transition.Reachable.replay_guard (fun _ _ _ => Call.step_of_check) (.init rfl) hrun)
  have hhead := (howned.valid.lists.chain ⟨15, by decide⟩).head?_eq
  rw [hlist, ptr_of_ne (by decide)] at hhead
  exact ⟨w, blocks, lost, w', howned, ⟨hempty, hless⟩, Call.step_of_check hcheck,
    List.head?_eq_some_iff.mp hhead.symm, hheld, hheld'⟩

/-- With a retry that succeeds the free block of 128 bytes is dropped. -/
theorem fallsBack_after_leadUp : ∃ w blocks lost w', Owned w blocks lost ∧ Exhausted w 64 ∧
    Step w (.allocate 64 [0, 8192]) w' ∧ (∃ rest, blocks ⟨15, by decide⟩ = 4256 :: rest) ∧
      (FallsBack w blocks 64 w' ↔ ∀ k, sRoundUp 64 ≤ classSize k → blocks k = []) ∧
        (([8192] : List ℕ).head? ≠ some 0 → ∀ k p rest, sRoundUp 64 ≤ classSize k → blocks k = p :: rest →
          Dropped w' (freeBlock k p)) := by
  obtain ⟨w, blocks, lost, w', howned, hexhausted, hstep, hblock, -, -⟩ :=
    @refused_after_leadUp 8192 [(8192, 64), (4096, 8)] (by decide +kernel)
  exact ⟨w, blocks, lost, w', howned, hexhausted, hstep, hblock, fallsBack_iff_no_block howned hexhausted hstep⟩

/-- With a retry that fails the request for 64 bytes is not served, although a block of 128 is free. -/
theorem not_fallsBack_after_leadUp : ∃ w blocks lost w', Owned w blocks lost ∧ Exhausted w 64 ∧
    Step w (.allocate 64 [0, 0]) w' ∧ (∃ rest, blocks ⟨15, by decide⟩ = 4256 :: rest) ∧
      w'.held = w.held ∧ ¬ FallsBack w blocks 64 w' := by
  obtain ⟨w, blocks, lost, w', howned, hexhausted, hstep, ⟨rest, hblock⟩, hheld, hheld'⟩ :=
    @refused_after_leadUp 0 [(4096, 8)] (by decide +kernel)
  refine ⟨w, blocks, lost, w', howned, hexhausted, hstep, ⟨rest, hblock⟩, hheld'.trans hheld.symm, fun hfalls => ?_⟩
  obtain ⟨_, _, _, _, hserved, _⟩ := hfalls ⟨⟨15, by decide⟩, by decide, by simp [hblock]⟩
  rw [hheld, hheld'] at hserved
  exact List.cons_ne_self _ _ hserved.symm

end CppProject.StlAlloc
