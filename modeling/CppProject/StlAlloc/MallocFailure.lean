import CppProject.StlAlloc.Partition

/-!
# When `malloc` fails

A failure of the first request alone loses blocks but hands out nothing that is not owned. After
a failure of both requests the code goes on with a region of the requested size at the null
address: the call returns null, and the list of its class starts at an address no larger than
128. So a run owns its memory as long as no call sees both requests fail, and where `malloc`
hands out no such addresses the first call that does breaks it.
-/

namespace CppProject.StlAlloc

open AddressInterval PointerChain Transition

variable {w w' : World}

/-- The blocks of the clients, the blocks on the lists and the pool lie inside the regions. -/
def Contained (w : World) : Prop :=
  ∃ blocks : Fin nFreelists → List ℕ,
    (∀ k, Chain (fun p => ptr (w.arena.link p)) (ptr (w.arena.sFreeList k)) (blocks k)) ∧
      ∀ i ∈ parts w blocks, ∀ x, i.Mem x → ∃ r ∈ w.arena.regions, r.Mem x

/-- No memory can be obtained: `malloc` is asked and only fails, and no list of the class or a
larger one has a block. -/
def NoMemory (w : World) : Call → Prop
  | .allocate n answers => (∀ k, sRoundUp n ≤ classSize k → w.arena.sFreeList k = 0) ∧
      w.arena.bytesLeft < sRoundUp n ∧ ∀ answer ∈ answers, answer = 0
  | _ => False

/-- Nothing has changed: no block was handed out, and the allocator is as it was. -/
structure Untouched (w w' : World) : Prop where
  held : w'.held = w.held
  start : w'.arena.sStartFree = w.arena.sStartFree
  bound : w'.arena.sEndFree = w.arena.sEndFree
  heap : w'.arena.sHeapSize = w.arena.sHeapSize
  lists : w'.arena.sFreeList = w.arena.sFreeList

/-- A call for which no memory can be obtained changes nothing. -/
def FailsCleanly (w : World) (call : Call) (w' : World) : Prop := NoMemory w call → Untouched w w'

/-- What is accounted for lies within what was obtained. -/
theorem Owned.contained {blocks : Fin nFreelists → List ℕ} {lost : List Interval}
    (h : Owned w blocks lost) : Contained w :=
  ⟨blocks, h.valid.lists.chain, fun i hi x hx =>
    (h.tiles.mem_iff x).mp ⟨i, List.mem_append_left _ hi, hx⟩⟩

/-- A call that returns without memory has seen both requests fail. -/
theorem NoMemory.failsTwice {call : Call} (hnone : NoMemory w call) (hstep : Step w call w') :
    MallocFailsTwice w call := by
  cases call with
  | allocate n answers =>
    obtain ⟨⟨hpos, hle⟩, hexec, -⟩ := hstep
    obtain ⟨hlists, hless, hzero⟩ := hnone
    obtain ⟨k, hk, hsize⟩ := freeListOf_eq hpos hle
    have hhead : w.arena.sFreeList k = 0 := hlists k hsize.ge
    refine ⟨by rw [hk, Option.map_some, hhead], hless, ?_⟩
    rw [Call.exec] at hexec
    obtain ⟨⟨p, s⟩, hout, -⟩ := Option.map_eq_some_iff.mp hexec
    rw [StlAlloc.allocate, hk, Option.bind_some, if_pos hhead, sRefill] at hout
    obtain ⟨chunk, hchunk, -⟩ := Option.bind_eq_some_iff.mp hout
    obtain ⟨htotal, -⟩ := totalBytes_eq k (le_refl refillObjs)
    rw [← hsize] at hchunk hless
    have hall : w.arena.bytesLeft < sizeT (classSize k * refillObjs) := by
      rw [htotal]
      exact lt_of_lt_of_le hless (Nat.le_mul_of_pos_right _ (by decide))
    cases answers with
    | nil => simp [sChunkAlloc_unanswered hall hless (Or.inl rfl)] at hchunk
    | cons first answers =>
      obtain rfl := hzero first List.mem_cons_self
      cases answers with
      | nil => simp [sChunkAlloc_unanswered hall hless (Or.inr rfl)] at hchunk
      | cons retry answers =>
        obtain rfl := hzero retry (List.mem_cons_of_mem _ List.mem_cons_self)
        exact ⟨answers, rfl⟩
  | deallocate => exact hnone
  | write => exact hnone

/-- After both requests have failed the list of the class starts at an address up to 128. -/
theorem MallocFailsTwice.head_eq {blocks : Fin nFreelists → List ℕ} {lost : List Interval}
    (h : Owned w blocks lost) {call : Call} (hstep : Step w call w') (hfail : MallocFailsTwice w call) :
    ∃ k, w'.arena.sFreeList k = classSize k := by
  cases call with
  | allocate n answers =>
    obtain ⟨⟨hpos, hle⟩, hexec, -⟩ := hstep
    obtain ⟨hempty, hless, answers, rfl⟩ := hfail
    rw [Call.exec] at hexec
    obtain ⟨⟨p, s⟩, hout, rfl⟩ := Option.map_eq_some_iff.mp hexec
    obtain ⟨hretry, ⟨k, hhead⟩, -⟩ := h.valid.allocate_retry hpos hle hempty hless hout
    obtain rfl : 0 = p := Option.some.inj hretry
    exact ⟨k, hhead.trans (Nat.zero_add _)⟩
  | deallocate => exact absurd hfail id
  | write => exact absurd hfail id

/-- A list that starts below every region is not contained in the regions. -/
theorem not_contained {k : Fin nFreelists} (hhead : w.arena.sFreeList k = classSize k)
    (hlow : ∀ r ∈ w.arena.regions, maxBytes < r.start) : ¬ Contained w := by
  intro ⟨blocks, hchain, hinside⟩
  have hsize := classSize_bounds k
  have hfirst := (hchain k).head?_eq
  rw [hhead, ptr_of_ne (by omega)] at hfirst
  have hmem : classSize k ∈ blocks k := List.mem_of_mem_head? hfirst.symm
  have hpart : freeBlock k (classSize k) ∈ parts w blocks := List.mem_append_left _
    (List.mem_append_right _ (mem_freeBlocks.mpr ⟨k, _, hmem, rfl⟩))
  obtain ⟨r, hr, hx⟩ := hinside _ hpart (classSize k) ⟨le_rfl, by simp only [freeBlock]; omega⟩
  have hstart := hlow r hr
  exact absurd hx.1 (by omega)

/-- In every run in which no call sees both requests fail, all memory lies inside the regions
and a call without memory changes nothing. A call that sees both fail ends this, if `malloc`
hands out no address up to 128. -/
theorem contained_of_not_failsTwice {memory : ℕ → ℕ}
    (h : Transition.Reachable (· = World.new memory) (Restrict Step fun w call => ¬ MallocFailsTwice w call) w) :
    Contained w ∧ ∀ call w', Step w call w' →
      (¬ MallocFailsTwice w call → Contained w' ∧ FailsCleanly w call w') ∧
      ((∀ r ∈ w'.arena.regions, maxBytes < r.start) → MallocFailsTwice w call → ¬ Contained w') := by
  obtain ⟨blocks, lost, howned⟩ := Reachable.owned h
  refine ⟨howned.contained, fun call w' hstep => ⟨fun hok => ⟨?_, fun hnone => ?_⟩, fun hlow hfail => ?_⟩⟩
  · obtain ⟨blocks', lost', howned', -⟩ := howned.step hstep hok
    exact howned'.contained
  · exact absurd (hnone.failsTwice hstep) hok
  · obtain ⟨k, hhead⟩ := hfail.head_eq howned hstep
    exact not_contained hhead hlow

/-- A run in which the first request of a call fails and its retry succeeds. -/
theorem contained_after_retry : ∃ w : World, w.held = [(4096, 8)] ∧
    (Contained w ∧ ∀ call w', Step w call w' →
      (¬ MallocFailsTwice w call → Contained w' ∧ FailsCleanly w call w') ∧
      ((∀ r ∈ w'.arena.regions, maxBytes < r.start) → MallocFailsTwice w call → ¬ Contained w')) := by
  have hheld : (Transition.replay (Transition.guard (fun w call => ¬ MallocFailsTwice w call) Call.check)
      (World.new fun _ => 0) [.allocate 8 [0, 4096]]).map World.held = some [(4096, 8)] := by decide
  obtain ⟨w, hrun, hheld⟩ := Option.map_eq_some_iff.mp hheld
  exact ⟨w, hheld, contained_of_not_failsTwice
    (Transition.Reachable.replay_guard (fun _ _ _ => Call.step_of_check) (.init rfl) hrun)⟩

/-- The first allocation with `malloc` failing twice: it returns null, counts 320 bytes it does not
have, and leaves a free list that starts at address 8 and a pool from 160 to 320. -/
theorem first_allocation_without_memory : ∃ w,
    Step (World.new fun _ => 0) (.allocate 8 [0, 0]) w ∧ NoMemory (World.new fun _ => 0) (.allocate 8 [0, 0]) ∧
      w.held = [] ∧ w.arena.regions = [] ∧ w.arena.sFreeList ⟨0, by decide⟩ = 8 ∧ w.arena.sStartFree = 160 ∧
      w.arena.sEndFree = 320 ∧ w.arena.sHeapSize = 320 ∧ ¬ Contained w ∧
      ¬ FailsCleanly (World.new fun _ => 0) (.allocate 8 [0, 0]) w := by
  have hrun : (Call.check (World.new fun _ => 0) (.allocate 8 [0, 0])).map (fun w => decide
      (w.held = [] ∧ w.arena.regions = [] ∧ w.arena.sFreeList ⟨0, by decide⟩ = 8 ∧ w.arena.sStartFree = 160 ∧
        w.arena.sEndFree = 320 ∧ w.arena.sHeapSize = 320)) = some true := by decide
  obtain ⟨w, hcheck, hw⟩ := Option.map_eq_some_iff.mp hrun
  obtain ⟨hheld, hregions, hlist, hstart, hend, hheap⟩ := of_decide_eq_true hw
  have hnone : NoMemory (World.new fun _ => 0) (.allocate 8 [0, 0]) :=
    ⟨fun _ _ => rfl, by decide, by decide⟩
  refine ⟨w, Call.step_of_check hcheck, hnone, hheld, hregions, hlist, hstart, hend, hheap, ?_, fun hclean => ?_⟩
  · exact not_contained hlist (by simp [hregions])
  · have hsame := (hclean hnone).heap
    rw [hheap] at hsame
    exact absurd hsame (by decide)

end CppProject.StlAlloc
