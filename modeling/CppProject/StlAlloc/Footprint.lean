import CppProject.StlAlloc.Isolation
import Mathlib.Algebra.BigOperators.Fin
import Mathlib.Data.Fintype.BigOperators

/-!
# The memory a program needs

No block ever leaves its class: once cut from the pool it is held by a client or waits on its free list. A class is
refilled only while all its blocks are held, and a refill from a new region brings 20 of them. So a program that holds
a bounded number of blocks of each class at a time makes a bounded number of requests to `malloc`, however long it
runs.
-/

namespace CppProject.StlAlloc

open AddressInterval PointerChain Transition

variable {s s' : Arena} {w w' : World} {blocks blocks' : Fin nFreelists → List ℕ} {others others' : List Interval}

/-- The blocks of a class that the clients hold. -/
def heldCount (w : World) (k : Fin nFreelists) : ℕ := w.held.countP fun e => freeListOf e.2 = some k

/-- All blocks of a class, held and free. -/
def classCount (w : World) (blocks : Fin nFreelists → List ℕ) (k : Fin nFreelists) : ℕ :=
  (blocks k).length + heldCount w k

/-- An allocation does not raise the blocks held of its class above the peak. -/
def WithinPeak (peak : Fin nFreelists → ℕ) (w : World) : Call → Prop
  | .allocate n _ => ∀ k, freeListOf n = some k → heldCount w k < peak k
  | _ => True

instance (peak : Fin nFreelists → ℕ) (w : World) : (call : Call) → Decidable (WithinPeak peak w call)
  | .allocate n _ => inferInstanceAs (Decidable (∀ k, freeListOf n = some k → heldCount w k < peak k))
  | .deallocate _ _ => inferInstanceAs (Decidable True)
  | .write _ _ _ => inferInstanceAs (Decidable True)

/-! ## The lengths of the lists -/

/-- The lists are determined. -/
theorem Lists.unique (h : Lists s blocks others) (h' : Lists s blocks' others') : blocks = blocks' :=
  funext fun k => (h.chain k).unique (h'.chain k)

/-- One block more than the rounds. -/
@[simp] theorem length_objs (n rounds current : ℕ) : (objs n rounds current).length = rounds + 1 := by
  induction rounds generalizing current with
  | zero => rfl
  | succ rounds ih => rw [objs, List.length_cons, ih]

/-- A donation lengthens one list, or none. -/
theorem Valid.donate_length (h : Valid s blocks others) {k : Fin nFreelists} (hless : s.bytesLeft < classSize k)
    {s₁ : Arena} (hdonate : s.donate = some s₁) (h₁ : Lists s₁ blocks' others') :
    s₁.regions = s.regions ∧ ∀ j, (blocks j).length ≤ (blocks' j).length := by
  have hleft := h.bytesLeft_eq
  rw [Arena.donate] at hdonate
  split at hdonate
  · next hpos =>
    obtain ⟨j, hj⟩ := exists_classSize hpos (hless.le.trans (classSize_bounds k).2) (hleft ▸ h.dvd_pool.2)
    have hpool : s.pool = freeBlock j s.sStartFree := by rw [Arena.pool, freeBlock, hj, hleft]
    rw [← hj, freeListOf_classSize, Option.map_some, Option.some.injEq] at hdonate
    subst hdonate
    obtain rfl := (Lists.push (hpool ▸ h.lists)).unique h₁
    refine ⟨rfl, fun i => ?_⟩
    by_cases hi : i = j
    · subst hi
      rw [Function.update_self]
      exact Nat.le_succ _
    · rw [Function.update_of_ne hi]
  · obtain rfl := Option.some.inj hdonate
    obtain rfl := h.lists.unique h₁
    exact ⟨rfl, fun _ => le_rfl⟩

/-- A refill shortens no list, and one from a new region adds all blocks it asks for. -/
theorem Valid.sRefill_length (h : Valid s blocks others) {k : Fin nFreelists} {answers : List ℕ} {p : ℕ}
    (hempty : blocks k = []) (hout : StlAlloc.sRefill (classSize k) answers s = some (p, s'))
    (hmalloc : MallocOk s'.regions) (hok : ∀ answer ∈ answers, answer ≠ 0) (h' : Lists s' blocks' others') :
    (∀ j, (blocks j).length ≤ (blocks' j).length) ∧ (s'.regions = s.regions ∨
      ∃ r, s'.regions = r :: s.regions ∧ (blocks' k).length + 1 = refillObjs) := by
  rw [StlAlloc.sRefill] at hout
  obtain ⟨⟨chunk, m, s₁⟩, hchunk, hout⟩ := Option.bind_eq_some_iff.mp hout
  have hfrom := h.chunkFrom le_rfl hchunk
  have hspec := fun hmalloc => h.sChunkAlloc (by decide) le_rfl hchunk hmalloc fun _ hpre =>
    hok 0 (hpre.subset List.mem_cons_self) rfl
  clear hchunk
  -- the lists after the chunk has been cut, and the regions
  have hcut : ∀ {blocks₁ others₁}, Lists s₁ blocks₁ others₁ →
      (∀ j, (blocks j).length ≤ (blocks₁ j).length) ∧
        (s₁.regions = s.regions ∨ (∃ r, s₁.regions = r :: s.regions) ∧ m = refillObjs) := fun {blocks₁ _} h₁ => by
    cases hfrom with
    | pool hlink hlist hregions =>
      obtain rfl : blocks = blocks₁ := funext fun j => (h.lists.chain j).unique (by
        have hchain := h₁.chain j
        rwa [hlink, hlist] at hchain)
      exact ⟨fun _ => le_rfl, Or.inl hregions⟩
    | @region s₂ r hdonate hlink hless hlist hregions hm =>
      obtain ⟨s₃, blocks₃, hdonate', hlists, -⟩ := h.donate hless
      obtain rfl := Option.some.inj (hdonate.symm.trans hdonate')
      obtain rfl : blocks₃ = blocks₁ := funext fun j => (hlists.chain j).unique (by
        have hchain := h₁.chain j
        rwa [hlink, hlist] at hchain)
      obtain ⟨hsame, hlength⟩ := h.donate_length hless hdonate hlists
      exact ⟨hlength, Or.inr ⟨⟨r, hsame ▸ hregions⟩, hm⟩⟩
    | retry _ _ hzero => exact absurd rfl (hok 0 hzero)
  cases m with
  | zero => simp at hout
  | succ m =>
    cases m with
    | zero =>
      simp only [Option.some.injEq, Prod.mk.injEq] at hout
      obtain ⟨rfl, rfl⟩ := hout
      obtain ⟨hlength, hregions⟩ := hcut h'
      exact ⟨hlength, hregions.imp_right fun hnew => absurd hnew.2 (by decide)⟩
    | succ rounds =>
      simp only [freeListOf_classSize, Option.map_some, Option.some.injEq, Prod.mk.injEq] at hout
      obtain ⟨rfl, rfl⟩ := hout
      obtain ⟨blocks₁, lost, -, hvalid, hkeep, -⟩ := hspec hmalloc
      obtain ⟨hlength, hregions⟩ := hcut hvalid.lists
      have hthread := (hvalid.lists.perm (List.Perm.swap _ _ _)).thread (hkeep k le_rfl hempty)
      obtain rfl := hthread.unique h'
      refine ⟨fun j => ?_, hregions.imp_right fun hnew => hnew.1.imp fun r hr => ⟨hr, ?_⟩⟩
      · by_cases hj : j = k
        · subst hj
          rw [hempty]
          exact Nat.zero_le _
        · rw [Function.update_of_ne hj]
          exact hlength j
      · rw [Function.update_self, length_objs, ← hnew.2]

/-- An allocation takes one block off the list of its class at most. -/
theorem Valid.allocate_length (h : Valid s blocks others) {n : ℕ} {answers : List ℕ} {p : ℕ} {k : Fin nFreelists}
    (hk : freeListOf n = some k) (hsize : classSize k = sRoundUp n)
    (hout : StlAlloc.allocate n answers s = some (p, s')) (hmalloc : MallocOk s'.regions)
    (hok : ∀ answer ∈ answers, answer ≠ 0) (h' : Lists s' blocks' others') :
    (∀ j, (blocks j).length ≤ (blocks' j).length + if j = k then 1 else 0) ∧ (s'.regions = s.regions ∨
      blocks k = [] ∧ ∃ r, s'.regions = r :: s.regions ∧ (blocks' k).length + 1 = refillObjs) := by
  rw [StlAlloc.allocate, hk, Option.bind_some, ← hsize] at hout
  by_cases hzero : s.sFreeList k = 0
  · rw [if_pos hzero] at hout
    have hempty := h.lists.head_eq_zero.mp hzero
    obtain ⟨hlength, hregions⟩ := h.sRefill_length hempty hout hmalloc hok h'
    exact ⟨fun j => (hlength j).trans (Nat.le_add_right _ _), hregions.imp_right fun hnew => ⟨hempty, hnew⟩⟩
  · rw [if_neg hzero, Option.some.injEq, Prod.mk.injEq] at hout
    obtain ⟨-, rfl⟩ := hout
    obtain ⟨q, rest, hblocks⟩ := List.exists_cons_of_ne_nil (mt h.lists.head_eq_zero.mpr hzero)
    obtain rfl := (h.lists.pop hblocks).2.unique h'
    refine ⟨fun j => ?_, Or.inl rfl⟩
    by_cases hj : j = k
    · subst hj
      rw [Function.update_self, hblocks, if_pos rfl, List.length_cons]
    · rw [Function.update_of_ne hj, if_neg hj, Nat.add_zero]

/-! ## The count of a class -/

/-- A block more that is held counts for its list. -/
theorem heldCount_cons {s : Arena} {p n : ℕ} {k : Fin nFreelists} (hk : freeListOf n = some k) (j : Fin nFreelists) :
    heldCount ⟨s, (p, n) :: w.held⟩ j = heldCount w j + if j = k then 1 else 0 := by
  rw [heldCount, List.countP_cons, hk]
  simp [heldCount, eq_comm]

/-- A block less that is held counts for its list. -/
theorem heldCount_erase {s : Arena} {p n : ℕ} (hheld : (p, n) ∈ w.held) {k : Fin nFreelists}
    (hk : freeListOf n = some k) (j : Fin nFreelists) :
    heldCount ⟨s, w.held.erase (p, n)⟩ j + (if j = k then 1 else 0) = heldCount w j := by
  rw [heldCount, heldCount, (List.perm_cons_erase hheld).countP_eq, List.countP_cons, hk]
  simp [eq_comm]

/-- A call asks `malloc` for one region on behalf of a class: the class has fewer blocks than the peak, and grows by
all blocks a refill asks for. -/
structure Requested (peak : Fin nFreelists → ℕ) (w w' : World) (blocks blocks' : Fin nFreelists → List ℕ)
    (k : Fin nFreelists) : Prop where
  below : classCount w blocks k < peak k
  grown : classCount w blocks k + refillObjs ≤ classCount w' blocks' k
  one : w'.arena.regions.length = w.arena.regions.length + 1

/-- No step lowers the count of a class, and a step that asks `malloc` for memory raises one by 20. -/
theorem Owned.counts (h : Owned w blocks []) {call : Call} (hstep : Step w call w') (hok : MallocSucceeds w call)
    {peak : Fin nFreelists → ℕ} (hpeak : WithinPeak peak w call) (h' : Owned w' blocks' []) :
    (∀ k, classCount w blocks k ≤ classCount w' blocks' k) ∧
      (w'.arena.regions = w.arena.regions ∨ ∃ k, Requested peak w w' blocks blocks' k) := by
  obtain ⟨hvalid, hexec, hmalloc⟩ := hstep
  cases call with
  | allocate n answers =>
    obtain ⟨hpos, hle⟩ := hvalid
    obtain ⟨k, hk, hsize⟩ := freeListOf_eq hpos hle
    rw [Call.exec] at hexec
    obtain ⟨⟨p, s⟩, hout, rfl⟩ := Option.map_eq_some_iff.mp hexec
    have hp := (h.usable hpos hle hout hmalloc hok.not_failsTwice).nonnull
    obtain ⟨hlength, hregions⟩ := h.valid.allocate_length hk hsize hout hmalloc hok h'.valid.lists
    -- the block that leaves the list is the one the client now holds
    have hcount := fun j => heldCount_cons (w := w) (s := s) (p := p) hk j
    simp only [if_neg hp, classCount, hcount]
    refine ⟨fun j => ?_, hregions.imp_right fun hnew => ⟨k, ?_⟩⟩
    · have := hlength j
      omega
    · obtain ⟨hempty, r, hr, hgrown⟩ := hnew
      refine ⟨?_, ?_, ?_⟩
      · simpa [classCount, hempty] using hpeak k hk
      · simp only [classCount, hempty, List.length_nil, hcount, if_true]
        omega
      · simp only [hr, List.length_cons]
  | deallocate p n =>
    obtain ⟨hpos, hle⟩ := h.sizes (p, n) hvalid
    obtain ⟨k, hk, hsize⟩ := freeListOf_eq hpos hle
    rw [Call.exec, deallocate, hk] at hexec
    obtain ⟨s, hout, rfl⟩ := Option.map_eq_some_iff.mp hexec
    rw [Option.map_some, Option.some.injEq] at hout
    subst hout
    have hperm := (List.perm_cons_erase hvalid).map heldBlock
    have hlists : Lists w.arena blocks (freeBlock k p :: w.arena.pool :: ((w.held.erase (p, n)).map heldBlock ++ [])) :=
      h.valid.lists.perm (by
        rw [freeBlock, hsize]
        exact (List.Perm.swap _ _ _).trans ((hperm.symm.append_right []).cons _))
    obtain rfl := hlists.push.unique h'.valid.lists
    refine ⟨fun j => ?_, Or.inl rfl⟩
    have hcount := heldCount_erase (s := w.arena.pushFree k p) hvalid hk j
    by_cases hj : j = k
    · subst hj
      simp only [classCount, Function.update_self, List.length_cons, if_true] at hcount ⊢
      omega
    · simp only [classCount, Function.update_of_ne hj, if_neg hj] at hcount ⊢
      omega
  | write p n data =>
    obtain rfl := Option.some.inj hexec
    have hmem : heldBlock (p, n) ∈ w.arena.pool :: (w.held.map heldBlock ++ []) :=
      List.mem_cons_of_mem _ (List.mem_append_left _ (List.mem_map_of_mem hvalid))
    obtain rfl := (h.valid.lists.write hmem data).unique h'.valid.lists
    exact ⟨fun _ => le_rfl, Or.inl rfl⟩

/-! ## The bound -/

/-- The requests to `malloc` that a class of a given count can have caused. -/
def requestsFor (peak count : ℕ) : ℕ := min ((peak + refillObjs - 1) / refillObjs) (count / refillObjs)

/-- More blocks are never fewer requests. -/
theorem requestsFor_mono (peak : ℕ) {count count' : ℕ} (h : count ≤ count') :
    requestsFor peak count ≤ requestsFor peak count' := min_le_min_left _ (Nat.div_le_div_right h)

/-- A refill below the peak is one request more. -/
theorem requestsFor_succ {peak count count' : ℕ} (hbelow : count < peak) (hgrown : count + refillObjs ≤ count') :
    requestsFor peak count + 1 ≤ requestsFor peak count' := by
  simp only [requestsFor, refillObjs] at hgrown ⊢
  omega

/-- All requests so far are accounted for by the counts of the classes. -/
theorem Owned.requests_step (h : Owned w blocks []) {call : Call} (hstep : Step w call w') (hok : MallocSucceeds w call)
    {peak : Fin nFreelists → ℕ} (hpeak : WithinPeak peak w call) (h' : Owned w' blocks' [])
    (hbound : w.arena.regions.length ≤ ∑ k, requestsFor (peak k) (classCount w blocks k)) :
    w'.arena.regions.length ≤ ∑ k, requestsFor (peak k) (classCount w' blocks' k) := by
  obtain ⟨hcounts, hregions⟩ := h.counts hstep hok hpeak h'
  have hmono := fun k => requestsFor_mono (peak k) (hcounts k)
  rcases hregions with hsame | ⟨k, hrequest⟩
  · rw [hsame]
    exact hbound.trans (Finset.sum_le_sum fun k _ => hmono k)
  · rw [hrequest.one]
    have hlt : ∑ k, requestsFor (peak k) (classCount w blocks k) <
        ∑ k, requestsFor (peak k) (classCount w' blocks' k) :=
      Finset.sum_lt_sum (fun k _ => hmono k) ⟨k, Finset.mem_univ k, requestsFor_succ hrequest.below hrequest.grown⟩
    omega

/-- In every run in which `malloc` does not fail and the clients never hold more blocks of a class than its peak,
`malloc` is asked once at most for every 20 blocks of the peaks, however many calls are made. -/
theorem mallocs_le {memory : ℕ → ℕ} {peak : Fin nFreelists → ℕ}
    (h : Transition.Reachable (· = World.new memory)
      (Restrict Step fun w call => MallocSucceeds w call ∧ WithinPeak peak w call) w) :
    w.arena.regions.length ≤ ∑ k, (peak k + refillObjs - 1) / refillObjs := by
  obtain ⟨blocks, -, hbound⟩ : ∃ blocks, Owned w blocks [] ∧
      w.arena.regions.length ≤ ∑ k, requestsFor (peak k) (classCount w blocks k) := by
    refine Transition.Reachable.invariant (P := fun w => ∃ blocks, Owned w blocks [] ∧
      w.arena.regions.length ≤ ∑ k, requestsFor (peak k) (classCount w blocks k))
      (fun w hw => ?_) (fun w call w' hw hstep => ?_) h
    · exact ⟨_, hw ▸ owned_new memory, hw ▸ Nat.zero_le _⟩
    · obtain ⟨blocks, howned, hbound⟩ := hw
      obtain ⟨hstep, hok, hpeak⟩ := hstep
      obtain ⟨blocks', lost', howned', hlost, -⟩ := howned.step hstep hok.not_failsTwice
      rw [hlost hok] at howned'
      exact ⟨blocks', howned', howned.requests_step hstep hok hpeak howned' hbound⟩
  exact hbound.trans (Finset.sum_le_sum fun k _ => min_le_left _ _)

/-- At most two blocks of 128 bytes and one of 8 at a time: two requests, the second of them for the larger class. -/
theorem mallocs_le_run : ∃ w : World, w.arena.regions.length = 2 ∧ w.arena.regions.length ≤
    ∑ k : Fin nFreelists, ((if k.val = 15 then 2 else if k.val = 0 then 1 else 0) + refillObjs - 1) / refillObjs := by
  have hrun : (replay (guard (fun w call => MallocSucceeds w call ∧
      WithinPeak (fun k => if k.val = 15 then 2 else if k.val = 0 then 1 else 0) w call) Call.check)
      (World.new fun _ => 0) [.allocate 7 [4096], .allocate 128 [], .allocate 121 [8192], .deallocate 8192 121,
        .allocate 128 []]).map (fun w => w.arena.regions.length) = some 2 := by decide +kernel
  obtain ⟨w, hrun, hlength⟩ := Option.map_eq_some_iff.mp hrun
  exact ⟨w, hlength, mallocs_le
    (Transition.Reachable.replay_guard (fun _ _ _ => Call.step_of_check) (.init rfl) hrun)⟩

end CppProject.StlAlloc
