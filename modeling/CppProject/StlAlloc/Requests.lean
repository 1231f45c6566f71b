import CppProject.StlAlloc.Partition

/-!
# The sizes that reach a free list

Without the first-level allocator no size is tested. The index computed from a size is in the array exactly
for 1 to `_MAX_BYTES` bytes; for these sizes no other index, of the remainder of the pool or of the loop over
the lists, leaves the array either, and a block that is returned is memory from `malloc` that nothing else uses.
-/

namespace CppProject.StlAlloc

open AddressInterval PointerChain Transition

variable {s : Arena} {w : World} {blocks : Fin nFreelists → List ℕ} {lost : List Interval} {n : ℕ}

/-- A size the lists are for. -/
def SmallSize (n : ℕ) : Prop := 1 ≤ n ∧ n ≤ maxBytes

instance (n : ℕ) : Decidable (SmallSize n) := inferInstanceAs (Decidable (_ ∧ _))

/-- Neither `allocate` nor `deallocate` leaves the array of lists for this size, in any state and for any
answers of `malloc`. A call asks `malloc` twice at most. -/
def StaysInLists (n : ℕ) : Prop :=
  ∀ s : Arena, s.sHeapSize < 2 ^ 64 →
    (∀ first retry, (allocate n [first, retry] s).isSome) ∧ ∀ p, (deallocate p n s).isSome

/-- The block of `n` bytes at `p` is memory that `malloc` has returned, apart from the pool and from every block that
is on a free list. -/
structure Obtained (s : Arena) (n p : ℕ) : Prop where
  malloc : ∀ x, (heldBlock (p, n)).Mem x → ∃ r ∈ s.regions, r.Mem x
  pool : (heldBlock (p, n)).Disjoint s.pool
  lists : ∃ blocks, (∀ k, Chain (fun p => ptr (s.link p)) (ptr (s.sFreeList k)) (blocks k)) ∧
    ∀ i ∈ freeBlocks blocks, (heldBlock (p, n)).Disjoint i

/-- In every run without a double failure of `malloc` so far, a block of this size is usable, and it is memory from
`malloc` that the allocator does not keep. -/
def ReturnsUsable (n : ℕ) : Prop :=
  ∀ memory w, Transition.Reachable (· = World.new memory) (Restrict Step fun w call => ¬ MallocFailsTwice w call) w →
    ∀ answers p s', allocate n answers w.arena = some (p, s') → MallocOk s'.regions → p ≠ 0 →
      Usable w n p ∧ Obtained s' n p

/-- The index, over the whole range of `size_t`. -/
theorem sFreelistIndex_lt_iff (hn : n < 2 ^ 64) : sFreelistIndex n < nFreelists ↔ SmallSize n := by
  simp only [sFreelistIndex, sizeT, alignBytes, nFreelists, SmallSize, maxBytes]
  omega

/-- The list computed from a size, over the whole range of `size_t`. -/
theorem freeListOf_isSome_iff (hn : n < 2 ^ 64) : (freeListOf n).isSome ↔ SmallSize n := by
  rw [← sFreelistIndex_lt_iff hn, freeListOf]
  split
  next hlt => exact iff_of_true rfl hlt
  next hge => exact iff_of_false nofun hge

/-! ## Indexes within a call -/

/-- The remainder of the pool is smaller than the request. -/
theorem donate_isSome {k : Fin nFreelists} (hless : s.bytesLeft < classSize k) : s.donate.isSome := by
  rw [Arena.donate]
  split
  next hpos =>
    have hsmall : SmallSize s.bytesLeft := ⟨hpos, hless.le.trans (classSize_bounds k).2⟩
    have hlt : s.bytesLeft < 2 ^ 64 := Nat.mod_lt _ (by decide)
    rw [Option.isSome_map, (freeListOf_isSome_iff hlt).mpr hsmall]
  next => rfl

/-- A class size has a list. -/
theorem takeBlock_isSome (s : Arena) (k : Fin nFreelists) : (s.takeBlock (classSize k)).isSome := by
  rw [Arena.takeBlock, freeListOf_classSize, Option.bind_some]
  split <;> rfl

/-- A loop over class sizes does not leave the array. -/
theorem takeBlock_foldlM_isSome {sizes : List ℕ} (hsizes : ∀ i ∈ sizes, ∃ k, classSize k = i) (s : Arena) :
    (sizes.foldlM Arena.takeBlock s).isSome := by
  induction sizes generalizing s with
  | nil => rfl
  | cons i sizes ih =>
    obtain ⟨⟨k, rfl⟩, hrest⟩ := List.forall_mem_cons.mp hsizes
    obtain ⟨s', hs'⟩ := Option.isSome_iff_exists.mp (takeBlock_isSome s k)
    rw [List.foldlM_cons, hs']
    exact ih hrest s'

/-- The loop only visits class sizes. -/
theorem takeBlocks_isSome (s : Arena) (k : Fin nFreelists) : (s.takeBlocks (classSize k)).isSome :=
  takeBlock_foldlM_isSome (fun _ hi => (mem_loopSizes.mp hi).imp fun _ hj => hj.2) s

/-- Every branch of `_S_chunk_alloc` ends with at least one block. -/
theorem sChunkAlloc_isSome (hheap : s.sHeapSize < 2 ^ 64) (k : Fin nFreelists) (first retry : ℕ) :
    ∃ chunk m s', sChunkAlloc (classSize k) refillObjs [first, retry] s = some (chunk, m + 1, s') := by
  obtain ⟨htotal, hbound⟩ := totalBytes_eq k (le_refl refillObjs)
  obtain ⟨-, hdouble, -⟩ := allocBytes_spec hheap ((dvd_classSize k).mul_right refillObjs) hbound
  have hpos := (classSize_bounds k).1
  have hblock : classSize k ≤ classSize k * refillObjs := Nat.le_mul_of_pos_right _ (by decide)
  by_cases hwhole : s.bytesLeft ≥ sizeT (classSize k * refillObjs)
  · exact ⟨_, 19, _, sChunkAlloc_whole hwhole⟩
  by_cases hfewer : s.bytesLeft ≥ classSize k
  · obtain ⟨m, hm⟩ := Nat.exists_eq_add_one_of_ne_zero (Nat.div_pos hfewer (by omega)).ne'
    refine ⟨s.sStartFree, m, { s with sStartFree := s.sStartFree + sizeT (classSize k * (m + 1)) }, ?_⟩
    rw [sChunkAlloc_fewer (not_le.mp hwhole) hfewer, hm]
  obtain ⟨s₁, hdonate⟩ := Option.isSome_iff_exists.mp (donate_isSome (not_le.mp hfewer))
  have hbytes : sizeT (classSize k * refillObjs) ≤ s.allocBytes (sizeT (classSize k * refillObjs)) := by
    rw [htotal]
    omega
  by_cases hfirst : first = 0
  · subst hfirst
    obtain ⟨s₂, htake⟩ := Option.isSome_iff_exists.mp
      (takeBlocks_isSome (s₁.mallocStart (s.allocBytes (sizeT (classSize k * refillObjs))) 0) k)
    exact ⟨_, 19, _, sChunkAlloc_retry retry [] (not_le.mp hwhole) (not_le.mp hfewer) hdonate htake hbytes⟩
  · exact ⟨_, 19, _, sChunkAlloc_first (not_le.mp hwhole) (not_le.mp hfewer) hdonate hfirst hbytes⟩

/-- `_S_refill` does not leave the array. -/
theorem sRefill_isSome (hheap : s.sHeapSize < 2 ^ 64) (k : Fin nFreelists) (first retry : ℕ) :
    (sRefill (classSize k) [first, retry] s).isSome := by
  obtain ⟨chunk, m, s', hchunk⟩ := sChunkAlloc_isSome hheap k first retry
  rw [sRefill, hchunk, Option.bind_some]
  cases m with
  | zero => rfl
  | succ m =>
    simp only [freeListOf_classSize, Option.map_some]
    rfl

/-- No index of a call of a small size leaves the array. -/
theorem SmallSize.staysInLists (h : SmallSize n) : StaysInLists n := by
  intro s hheap
  obtain ⟨k, hk, hsize⟩ := freeListOf_eq h.1 h.2
  constructor
  · intro first retry
    rw [allocate, hk, Option.bind_some, ← hsize]
    split
    · exact sRefill_isSome hheap k first retry
    · rfl
  · intro p
    rw [deallocate, hk]
    rfl

/-! ## The block -/

/-- A call that sees `malloc` fail twice returns null. -/
theorem Owned.null_of_failsTwice (h : Owned w blocks lost) (hsmall : SmallSize n) {answers : List ℕ} {p : ℕ}
    {s' : Arena} (hout : allocate n answers w.arena = some (p, s'))
    (hfail : MallocFailsTwice w (.allocate n answers)) : p = 0 := by
  obtain ⟨hempty, hless, rest, rfl⟩ := hfail
  obtain ⟨hp, -⟩ := h.valid.allocate_retry hsmall.1 hsmall.2 hempty hless hout
  exact (Option.some.inj hp).symm

/-- The block is one of the parts that tile the regions, and neither the pool nor on a list. -/
theorem Valid.obtained {others : List Interval} {p : ℕ} (h : Valid s blocks (heldBlock (p, n) :: others)) :
    Obtained s n p := by
  obtain ⟨-, hothers, hfree⟩ := List.pairwise_append.mp h.lists.disjoint
  have hblock : heldBlock (p, n) ∈ s.pool :: heldBlock (p, n) :: others := by simp
  have hpool := (List.pairwise_cons.mp hothers).1 _ List.mem_cons_self
  exact ⟨fun x hx => (h.lists.tiles.mem_iff x).mp ⟨_, List.mem_append_right _ hblock, hx⟩,
    fun x hx hx' => hpool x hx' hx, blocks, h.lists.chain, fun i hi x hx hx' => hfree i hi _ hblock x hx' hx⟩

/-- The block returned is usable and obtained from `malloc`. -/
theorem SmallSize.returnsUsable (h : SmallSize n) : ReturnsUsable n := by
  intro memory w hreach answers p s' hout hmalloc hp
  obtain ⟨blocks, lost, howned⟩ := Reachable.owned hreach
  have hfail : ¬ MallocFailsTwice w (.allocate n answers) := fun hfail =>
    hp (howned.null_of_failsTwice h hout hfail)
  obtain ⟨blocks', lost', hblock⟩ := howned.allocated h.1 h.2 hout hmalloc hfail
  exact ⟨howned.usable h.1 h.2 hout hmalloc hfail, hblock.obtained⟩

/-- The sizes from 1 to `_MAX_BYTES`, and no others, have a free list; their calls never leave the array, and
the block they return is so much memory from `malloc`, which neither the pool nor a list keeps. -/
theorem lists_reached_iff (n : UInt64) :
    (sFreelistIndex n.toNat < nFreelists ↔ SmallSize n.toNat) ∧ (StaysInLists n.toNat ↔ SmallSize n.toNat) ∧
      (SmallSize n.toNat → ReturnsUsable n.toNat) := by
  refine ⟨sFreelistIndex_lt_iff n.toNat_lt, ⟨?_, SmallSize.staysInLists⟩, SmallSize.returnsUsable⟩
  intro hstays
  have hsome := (hstays (Arena.new fun _ => 0) (by decide)).2 0
  rw [deallocate, Option.isSome_map] at hsome
  exact (freeListOf_isSome_iff n.toNat_lt).mp hsome

/-- The first request of a process, for 17 bytes. -/
theorem lists_reached_first : StaysInLists 17 ∧ Usable (World.new fun _ => 0) 17 4096 ∧
    ∃ s, allocate 17 [4096] (Arena.new fun _ => 0) = some (4096, s) ∧ Obtained s 17 4096 := by
  obtain ⟨-, hstays, husable⟩ := lists_reached_iff 17
  have hsmall : SmallSize (17 : UInt64).toNat := by decide
  have hout : (allocate 17 [4096] (World.new fun _ => 0).arena).map (fun out =>
      decide (out.1 = 4096 ∧ MallocOk out.2.regions)) = some true := by decide
  obtain ⟨⟨p, s'⟩, hout, hregions⟩ := Option.map_eq_some_iff.mp hout
  obtain ⟨rfl, hmalloc⟩ := of_decide_eq_true hregions
  obtain ⟨hblock, hobtained⟩ := husable hsmall _ _ (.init rfl) [4096] 4096 s' hout hmalloc (by decide)
  exact ⟨hstays.mpr hsmall, hblock, s', hout, hobtained⟩

/-- Requests of no byte and of one byte more than `_MAX_BYTES`: the index is the largest number, and 16. -/
theorem not_lists_reached : ¬ (∀ n : UInt64, sFreelistIndex n.toNat < nFreelists) ∧
    sFreelistIndex 0 = 2 ^ 64 - 1 ∧ sFreelistIndex 129 = 16 ∧
      allocate 129 [4096, 8192] (Arena.new fun _ => 0) = none ∧ deallocate 4096 129 (Arena.new fun _ => 0) = none := by
  refine ⟨?_, by decide, by decide, by decide, by decide⟩
  intro hall
  exact absurd (hall 129) (by decide)

end CppProject.StlAlloc
