import CppProject.StlAlloc.Allocate

/-!
# The partition of the regions

As long as no call sees `malloc` fail twice, the blocks of the clients, the free lists, the
pool and the lost blocks tile the regions `malloc` has returned; when `malloc` never fails,
nothing is lost. A call that sees both requests fail has no clean failure: it returns null,
but it has counted memory it did not get, and its pool starts at the null address.
-/

namespace CppProject.StlAlloc

open AddressInterval PointerChain Transition

variable {w w' : World} {blocks : Fin nFreelists → List ℕ} {lost : List Interval}

/-! ## The invariant -/

/-- The held blocks and the lost ones are what the lists and the pool leave of the regions. -/
structure Owned (w : World) (blocks : Fin nFreelists → List ℕ) (lost : List Interval) : Prop where
  valid : Valid w.arena blocks (w.held.map heldBlock ++ lost)
  sizes : ∀ e ∈ w.held, 1 ≤ e.2 ∧ e.2 ≤ maxBytes

/-- During an allocation that needs memory, the request to `malloc` and its retry both fail. -/
def MallocFailsTwice (w : World) : Call → Prop
  | .allocate n answers => (freeListOf n).map w.arena.sFreeList = some 0 ∧
      w.arena.bytesLeft < sRoundUp n ∧ [0, 0] <+: answers
  | _ => False

instance (w : World) : (call : Call) → Decidable (MallocFailsTwice w call)
  | .allocate _ _ => inferInstanceAs (Decidable (_ ∧ _ ∧ _))
  | .deallocate _ _ => inferInstanceAs (Decidable False)
  | .write _ _ _ => inferInstanceAs (Decidable False)

/-- `malloc` never fails during the call. -/
def MallocSucceeds (_ : World) : Call → Prop
  | .allocate _ answers => ∀ answer ∈ answers, answer ≠ 0
  | _ => True

instance (w : World) : (call : Call) → Decidable (MallocSucceeds w call)
  | .allocate _ answers => inferInstanceAs (Decidable (∀ answer ∈ answers, answer ≠ 0))
  | .deallocate _ _ => inferInstanceAs (Decidable True)
  | .write _ _ _ => inferInstanceAs (Decidable True)

/-- The first answer of `malloc` is no null pointer. -/
theorem MallocSucceeds.head?_ne {n : ℕ} {answers : List ℕ} (h : MallocSucceeds w (.allocate n answers)) :
    answers.head? ≠ some 0 := fun hhead => h 0 (List.mem_of_mem_head? hhead) rfl

/-- Then it does not fail twice either. -/
theorem MallocSucceeds.not_failsTwice {call : Call} (h : MallocSucceeds w call) :
    ¬ MallocFailsTwice w call := by
  cases call with
  | allocate n answers =>
    intro ⟨_, _, hpre⟩
    exact h 0 (hpre.subset List.mem_cons_self) rfl
  | deallocate => exact id
  | write => exact id

/-- A step keeps the invariant unless `malloc` fails twice, and loses nothing unless it fails. When it
fails for an exhausted list and pool, the step loses the first blocks of the larger lists. -/
theorem Owned.step (h : Owned w blocks lost) {call : Call} (hstep : Step w call w')
    (hfail : ¬ MallocFailsTwice w call) :
    ∃ blocks' lost', Owned w' blocks' (lost' ++ lost) ∧ (MallocSucceeds w call → lost' = []) ∧
      ∀ n answers k, call = .allocate n (0 :: answers) → freeListOf n = some k → w.arena.sFreeList k = 0 →
        w.arena.bytesLeft < classSize k → FirstsLost blocks k lost' := by
  obtain ⟨hvalid, hexec, hmalloc⟩ := hstep
  cases call with
  | allocate n answers =>
    obtain ⟨hpos, hle⟩ := hvalid
    rw [Call.exec] at hexec
    obtain ⟨⟨p, s⟩, hout, rfl⟩ := Option.map_eq_some_iff.mp hexec
    obtain ⟨blocks', lost', hblock, hlost, hfirsts⟩ := h.valid.allocate hpos hle hout hmalloc
      fun ⟨k, hk, hzero⟩ hless hpre => hfail ⟨by rw [hk, Option.map_some, hzero], hless, hpre⟩
    have hround := le_sRoundUp hle
    have hp : p ≠ 0 := Nat.pos_iff_ne_zero.mp (hblock.lists.start_pos
      (i := ⟨p, sRoundUp n⟩) (by simp) (by simp only; omega))
    refine ⟨blocks', lost', ⟨⟨hblock.lists.perm ?_, hblock.le⟩, ?_⟩, fun hok => hlost hok.head?_ne,
      fun n' answers' k hcall hk hzero hless => ?_⟩
    · simp only [if_neg hp, List.map_cons, heldBlock, List.cons_append]
      refine ((List.perm_append_comm_assoc _ _ _).cons _).cons _
    · simp only [if_neg hp, List.forall_mem_cons]
      exact ⟨⟨hpos, hle⟩, h.sizes⟩
    · obtain ⟨rfl, rfl⟩ := Call.allocate.inj hcall
      exact hfirsts k hk hzero hless rfl
  | deallocate p n =>
    obtain ⟨hpos, hle⟩ := h.sizes (p, n) hvalid
    have hperm := (List.perm_cons_erase hvalid).map heldBlock
    have hblock : Valid w.arena blocks
        (⟨p, sRoundUp n⟩ :: ((w.held.erase (p, n)).map heldBlock ++ lost)) :=
      ⟨h.valid.lists.perm ((hperm.symm.append_right lost).cons _), h.valid.le⟩
    obtain ⟨s, blocks', hout, hfree, -⟩ := hblock.deallocate hpos hle
    rw [Call.exec] at hexec
    obtain ⟨s', hout', rfl⟩ := Option.map_eq_some_iff.mp hexec
    obtain rfl : s = s' := Option.some.inj (hout.symm.trans hout')
    exact ⟨blocks', [], ⟨hfree, fun e he => h.sizes e (List.mem_of_mem_erase he)⟩, fun _ => rfl,
      fun _ _ _ hcall => nomatch hcall⟩
  | write p n data =>
    obtain rfl := Option.some.inj hexec
    have hmem : heldBlock (p, n) ∈ w.arena.pool :: (w.held.map heldBlock ++ lost) :=
      List.mem_cons_of_mem _ (List.mem_append_left _ (List.mem_map_of_mem hvalid))
    exact ⟨blocks, [], ⟨⟨h.valid.lists.write hmem data, h.valid.le⟩, h.sizes⟩, fun _ => rfl,
      fun _ _ _ hcall => nomatch hcall⟩

/-- Before the first call there is nothing. -/
theorem owned_new (memory : ℕ → ℕ) : Owned (World.new memory) (fun _ => []) [] := by
  have hparts : freeBlocks (fun _ => []) = [] := List.flatMap_eq_nil_iff.mpr fun _ _ => rfl
  refine ⟨⟨⟨fun _ => rfl, ?_, fun i hi => ?_, ⟨List.Pairwise.nil, by simp [World.new, Arena.new]⟩, rfl⟩,
    le_rfl⟩, by simp [World.new]⟩
  · rw [hparts]
    exact Tiles.empty 0
  · rw [hparts] at hi
    obtain rfl := List.mem_singleton.mp hi
    exact ⟨dvd_zero _, dvd_zero _⟩

/-- In every run without a double failure the invariant holds. -/
theorem Reachable.owned {memory : ℕ → ℕ}
    (h : Transition.Reachable (· = World.new memory) (Restrict Step fun w call => ¬ MallocFailsTwice w call) w) :
    ∃ blocks lost, Owned w blocks lost := by
  refine Transition.Reachable.invariant (P := fun w => ∃ blocks lost, Owned w blocks lost)
    (fun w hw => ⟨_, _, hw ▸ owned_new memory⟩) (fun w call w' ⟨blocks, lost, hw⟩ hstep => ?_) h
  obtain ⟨blocks', lost', howned, -⟩ := hw.step hstep.1 hstep.2
  exact ⟨blocks', lost' ++ lost, howned⟩

/-- In every run without a failure of `malloc` nothing is lost. -/
theorem Reachable.nothing_lost {memory : ℕ → ℕ}
    (h : Transition.Reachable (· = World.new memory) (Restrict Step MallocSucceeds) w) :
    ∃ blocks, Owned w blocks [] := by
  refine Transition.Reachable.invariant (P := fun w => ∃ blocks, Owned w blocks [])
    (fun w hw => ⟨_, hw ▸ owned_new memory⟩) (fun w call w' ⟨blocks, hw⟩ hstep => ?_) h
  obtain ⟨blocks', lost', howned, hlost, -⟩ := hw.step hstep.1 hstep.2.not_failsTwice
  rw [hlost hstep.2] at howned
  exact ⟨blocks', howned⟩

/-! ## The partition -/

/-- The blocks of the clients, the blocks on the lists, and the pool. -/
def parts (w : World) (blocks : Fin nFreelists → List ℕ) : List Interval :=
  w.held.map heldBlock ++ freeBlocks blocks ++ [w.arena.pool]

/-- The parts are disjoint and make up the regions, with the lists in the given order. -/
structure Partition (w : World) (blocks : Fin nFreelists → List ℕ) : Prop where
  lists : ∀ k, Chain (fun p => ptr (w.arena.link p)) (ptr (w.arena.sFreeList k)) (blocks k)
  acyclic : ∀ k, (blocks k).Nodup
  pool : w.arena.sStartFree ≤ w.arena.sEndFree
  disjoint : (parts w blocks).Pairwise Interval.Disjoint
  exact : ∀ x, (∃ i ∈ parts w blocks, i.Mem x) ↔ ∃ r ∈ w.arena.regions, r.Mem x
  sizes : total (parts w blocks) = w.arena.sHeapSize

/-- The order in which the parts are listed. -/
theorem parts_perm (w : World) (blocks : Fin nFreelists → List ℕ) (lost : List Interval) :
    (freeBlocks blocks ++ w.arena.pool :: (w.held.map heldBlock ++ lost)).Perm
      (parts w blocks ++ lost) := by
  have hparts : parts w blocks ++ lost =
      w.held.map heldBlock ++ (freeBlocks blocks ++ ([w.arena.pool] ++ lost)) := by simp [parts]
  rw [hparts]
  exact ((List.perm_append_comm_assoc [w.arena.pool] _ lost).append_left _).trans
    (List.perm_append_comm_assoc _ _ _)

/-- The parts tile the regions. -/
theorem Owned.tiles (h : Owned w blocks lost) : Tiles (parts w blocks ++ lost) w.arena.regions :=
  (Tiles.of_perm (parts_perm w blocks lost)).symm.trans h.valid.lists.tiles

/-- With nothing lost, the parts are a partition. -/
theorem Owned.partition (h : Owned w blocks []) : Partition w blocks := by
  have htiles := h.tiles
  rw [List.append_nil] at htiles
  exact ⟨h.valid.lists.chain, fun k => (h.valid.lists.chain k).nodup, h.valid.le,
    htiles.pairwise_disjoint h.valid.lists.malloc.disjoint, htiles.mem_iff,
    htiles.total.trans h.valid.lists.heap.symm⟩

/-- A block of at least `n` bytes at a usable address that shares no byte with a held one. -/
structure Usable (w : World) (n p : ℕ) : Prop where
  nonnull : p ≠ 0
  aligned : alignBytes ∣ p
  size : n ≤ (heldBlock (p, n)).size
  unshared : ∀ e ∈ w.held, (heldBlock (p, n)).Disjoint (heldBlock e)

/-- Unless `malloc` fails twice, an allocation takes its block from the pool and the lists. -/
theorem Owned.allocated (h : Owned w blocks lost) {n : ℕ} {answers : List ℕ} {p : ℕ} {s' : Arena} (hpos : 1 ≤ n)
    (hle : n ≤ maxBytes) (hout : allocate n answers w.arena = some (p, s')) (hmalloc : MallocOk s'.regions)
    (hfail : ¬ MallocFailsTwice w (.allocate n answers)) :
    ∃ blocks' lost', Valid s' blocks' (heldBlock (p, n) :: (lost' ++ (w.held.map heldBlock ++ lost))) := by
  obtain ⟨blocks', lost', hblock, -⟩ := h.valid.allocate hpos hle hout hmalloc
    fun ⟨k, hk, hzero⟩ hless hpre => hfail ⟨by rw [hk, Option.map_some, hzero], hless, hpre⟩
  exact ⟨blocks', lost', hblock⟩

/-- Unless `malloc` fails twice, an allocation returns a usable block. -/
theorem Owned.usable (h : Owned w blocks lost) {n : ℕ} {answers : List ℕ} {p : ℕ} {s' : Arena} (hpos : 1 ≤ n)
    (hle : n ≤ maxBytes) (hout : allocate n answers w.arena = some (p, s')) (hmalloc : MallocOk s'.regions)
    (hfail : ¬ MallocFailsTwice w (.allocate n answers)) : Usable w n p := by
  obtain ⟨blocks', lost', hblock⟩ := h.allocated hpos hle hout hmalloc hfail
  have hround := le_sRoundUp hle
  have hmem : heldBlock (p, n) ∈ freeBlocks blocks' ++ s'.pool :: heldBlock (p, n) ::
      (lost' ++ (w.held.map heldBlock ++ lost)) := by simp
  refine ⟨Nat.pos_iff_ne_zero.mp (hblock.lists.start_pos hmem (by simp only [heldBlock]; omega)),
    (hblock.lists.aligned _ hmem).1, hround, fun e he => ?_⟩
  obtain ⟨-, hothers, -⟩ := List.pairwise_append.mp hblock.lists.disjoint
  obtain ⟨-, hothers⟩ := List.pairwise_cons.mp hothers
  exact (List.pairwise_cons.mp hothers).1 _ (by simp [List.mem_map_of_mem he])

/-- In every run in which `malloc` never fails, the parts partition the regions, and an
allocation returns a usable block. -/
theorem partition_of_mallocSucceeds {memory : ℕ → ℕ}
    (h : Transition.Reachable (· = World.new memory) (Restrict Step MallocSucceeds) w) :
    (∃ blocks, Partition w blocks) ∧
      ∀ n first answers, 1 ≤ n → n ≤ maxBytes → MallocSucceeds w (.allocate n (first :: answers)) →
        ∃ p s', allocate n (first :: answers) w.arena = some (p, s') ∧
          (MallocOk s'.regions → Usable w n p) := by
  obtain ⟨blocks, howned⟩ := Reachable.nothing_lost h
  refine ⟨⟨blocks, howned.partition⟩, fun n first answers hpos hle hok => ?_⟩
  obtain ⟨⟨p, s'⟩, hout⟩ := Option.isSome_iff_exists.mp
    (howned.valid.allocate_isSome answers hpos hle (hok first List.mem_cons_self))
  exact ⟨p, s', hout, fun hmalloc => howned.usable hpos hle hout hmalloc hok.not_failsTwice⟩

/-- A run through all three branches of `_S_chunk_alloc`, with a donation and a block given back. -/
theorem partition_of_three_branches : ∃ w : World, w.held = [(8192, 128), (4096, 7)] ∧
    (∃ blocks, Partition w blocks) ∧
      ∀ n first answers, 1 ≤ n → n ≤ maxBytes → MallocSucceeds w (.allocate n (first :: answers)) →
        ∃ p s', allocate n (first :: answers) w.arena = some (p, s') ∧
          (MallocOk s'.regions → Usable w n p) := by
  have hheld : (Transition.replay (Transition.guard MallocSucceeds Call.check) (World.new fun _ => 0)
      [.allocate 7 [4096], .allocate 24 [], .allocate 128 [8192], .deallocate 4256 24]).map World.held =
        some [(8192, 128), (4096, 7)] := by decide +kernel
  obtain ⟨w, hrun, hheld⟩ := Option.map_eq_some_iff.mp hheld
  exact ⟨w, hheld, partition_of_mallocSucceeds
    (Transition.Reachable.replay_guard (fun _ _ _ => Call.step_of_check) (.init rfl) hrun)⟩

end CppProject.StlAlloc
