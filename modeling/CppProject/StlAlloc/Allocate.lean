import CppProject.StlAlloc.Refill

/-!
# Allocation

`_S_chunk_alloc` in closed form for each of its branches, and from it what `_S_refill` and
`allocate` do to the tiling. The results exclude a call whose two requests to `malloc` both
fail; `sChunkAlloc_retry` covers that call too, and says what the code does then.
-/

namespace CppProject.StlAlloc

open AddressInterval PointerChain

variable {s s' : Arena} {blocks : Fin nFreelists → List ℕ} {others : List Interval}

/-! ## The failure loop -/

/-- What rounds of the failure loop for some sizes do: they lose the first block of every list of such a
size, and leave the other lists and the empty ones. -/
structure Took (s s' : Arena) (blocks blocks' : Fin nFreelists → List ℕ) (lost others : List Interval)
    (sizes : List ℕ) : Prop where
  lists : Lists s' blocks' (lost ++ others)
  empty : ∀ j, blocks j = [] → blocks' j = []
  kept : ∀ j, classSize j ∉ sizes → blocks' j = blocks j
  first : ∀ j p rest, classSize j ∈ sizes → blocks j = p :: rest → freeBlock j p ∈ lost
  regions : s'.regions = s.regions
  heap : s'.sHeapSize = s.sHeapSize

/-- Different lists have different sizes. -/
theorem classSize_injective : Function.Injective classSize := fun j k h => by
  simp only [classSize, alignBytes] at h
  exact Fin.ext (by omega)

/-- One round of the failure loop loses the first block of one list. -/
theorem Lists.takeBlock (h : Lists s blocks others) (k : Fin nFreelists) :
    ∃ s' blocks' lost, s.takeBlock (classSize k) = some s' ∧
      Took s s' blocks blocks' lost others [classSize k] := by
  rw [Arena.takeBlock, freeListOf_classSize, Option.bind_some]
  have hself : ∀ {j}, classSize j ∈ [classSize k] → j = k := fun hj =>
    classSize_injective (List.mem_singleton.mp hj)
  cases hk : blocks k with
  | nil =>
    rw [if_neg (not_not.mpr (h.head_eq_zero.mpr hk))]
    refine ⟨s, blocks, [], rfl, h, fun _ => id, fun _ _ => rfl, fun j p rest hj hblocks => ?_, rfl, rfl⟩
    rw [hself hj, hk] at hblocks
    contradiction
  | cons p rest =>
    have hne : s.sFreeList k ≠ 0 := fun hzero => by simp [h.head_eq_zero.mp hzero] at hk
    rw [if_pos hne]
    refine ⟨_, _, [freeBlock k p], rfl, (h.pop hk).2.congr rfl rfl rfl rfl, fun j hj => ?_, fun j hj => ?_,
      fun j q rest' hj hblocks => ?_, rfl, rfl⟩
    · have hjk : j ≠ k := fun heq => by
        rw [heq, hk] at hj
        exact List.cons_ne_nil _ _ hj
      rw [Function.update_of_ne hjk, hj]
    · exact Function.update_of_ne (fun heq => hj (List.mem_singleton.mpr (congrArg classSize heq))) _ _
    · obtain rfl := hself hj
      obtain ⟨rfl, -⟩ := List.cons.inj (hk.symm.trans hblocks)
      exact List.mem_cons_self

/-- The loop loses the first block of each list it visits and leaves empty lists empty. -/
theorem Lists.takeBlock_foldlM (h : Lists s blocks others) {sizes : List ℕ}
    (hsizes : ∀ i ∈ sizes, ∃ k, classSize k = i) :
    ∃ s' blocks' lost, sizes.foldlM Arena.takeBlock s = some s' ∧ Took s s' blocks blocks' lost others sizes := by
  induction sizes generalizing s blocks others with
  | nil => exact ⟨s, blocks, [], rfl, h, fun _ => id, fun _ _ => rfl, fun _ _ _ hj => by simp at hj, rfl, rfl⟩
  | cons i sizes ih =>
    obtain ⟨⟨k, rfl⟩, hrest⟩ := List.forall_mem_cons.mp hsizes
    obtain ⟨s₁, blocks₁, lost₁, hrun₁, htook₁⟩ := h.takeBlock k
    obtain ⟨s', blocks', lost, hrun, htook⟩ := ih htook₁.lists hrest
    refine ⟨s', blocks', lost ++ lost₁, ?_, ?_, fun j hj => htook.empty j (htook₁.empty j hj), fun j hj => ?_,
      fun j p rest hj hblocks => ?_, htook.regions.trans htook₁.regions, htook.heap.trans htook₁.heap⟩
    · rw [List.foldlM_cons, hrun₁]
      exact hrun
    · rw [List.append_assoc]
      exact htook.lists
    · obtain ⟨hjk, hj⟩ := not_or.mp (List.mem_cons.not.mp hj)
      exact (htook.kept j hj).trans (htook₁.kept j fun hmem => hjk (List.mem_singleton.mp hmem))
    · by_cases hjk : classSize j = classSize k
      · exact List.mem_append_right _ (htook₁.first j p rest (List.mem_singleton.mpr hjk) hblocks)
      · have hkept := htook₁.kept j fun hmem => hjk (List.mem_singleton.mp hmem)
        exact List.mem_append_left _
          (htook.first j p rest ((List.mem_cons.mp hj).resolve_left hjk) (hkept.trans hblocks))

/-- The sizes the loop visits: the request's class and those above. -/
theorem mem_loopSizes {k : Fin nFreelists} {i : ℕ} :
    i ∈ List.range' (classSize k) ((maxBytes + alignBytes - classSize k) / alignBytes) alignBytes ↔
      ∃ j, classSize k ≤ classSize j ∧ classSize j = i := by
  rw [List.mem_range']
  constructor
  · rintro ⟨m, hm, rfl⟩
    have hk := classSize_bounds k
    simp only [maxBytes, alignBytes] at hm hk
    obtain ⟨j, hj⟩ := exists_classSize (n := classSize k + alignBytes * m) (by omega)
      (by simp only [maxBytes, alignBytes]; omega)
      (Nat.dvd_add (dvd_classSize k) (Nat.dvd_mul_right _ _))
    exact ⟨j, by omega, hj⟩
  · rintro ⟨j, hkj, rfl⟩
    have hj := j.isLt
    simp only [classSize, alignBytes, nFreelists, maxBytes] at hkj hj ⊢
    exact ⟨j - k, by omega, by omega⟩

/-- The first block of every list of a class or above is lost. -/
def FirstsLost (blocks : Fin nFreelists → List ℕ) (k : Fin nFreelists) (lost : List Interval) : Prop :=
  ∀ j p rest, classSize k ≤ classSize j → blocks j = p :: rest → freeBlock j p ∈ lost

/-- The loop visits the lists of the request's class and above. -/
theorem Lists.takeBlocks (h : Lists s blocks others) (k : Fin nFreelists) :
    ∃ s' blocks' lost, s.takeBlocks (classSize k) = some s' ∧ Took s s' blocks blocks' lost others
      (List.range' (classSize k) ((maxBytes + alignBytes - classSize k) / alignBytes) alignBytes) :=
  h.takeBlock_foldlM fun _ hi =>
    let ⟨j, _, hj⟩ := mem_loopSizes.mp hi
    ⟨j, hj⟩

/-! ## `_S_chunk_alloc` -/

/-- A request of at most 20 blocks does not wrap. -/
theorem totalBytes_eq (k : Fin nFreelists) {nobjs : ℕ} (hle : nobjs ≤ refillObjs) :
    sizeT (classSize k * nobjs) = classSize k * nobjs ∧ classSize k * nobjs ≤ 2560 := by
  have hk := (classSize_bounds k).2
  have hbound : classSize k * nobjs ≤ maxBytes * refillObjs := Nat.mul_le_mul hk hle
  have hvalue : maxBytes * refillObjs = 2560 := by decide
  rw [sizeT]
  omega

/-- The request to `malloc` does not wrap, is a multiple of 8 and holds the blocks asked for. -/
theorem allocBytes_spec (hheap : s.sHeapSize < 2 ^ 64) {totalBytes : ℕ} (hdvd : alignBytes ∣ totalBytes)
    (hle : totalBytes ≤ 2560) :
    alignBytes ∣ s.allocBytes totalBytes ∧ 2 * totalBytes ≤ s.allocBytes totalBytes ∧
      s.allocBytes totalBytes < 2 ^ 61 := by
  have hshift : s.sHeapSize >>> 4 < 2 ^ 60 := by
    rw [Nat.shiftRight_eq_div_pow]
    omega
  obtain ⟨m, rfl⟩ := hdvd
  rw [Arena.allocBytes, sRoundUp_eq (by omega), sizeT]
  simp only [alignBytes] at hle ⊢
  omega

/-- The pool holds all blocks asked for. -/
theorem sChunkAlloc_whole {size nobjs : ℕ} {answers : List ℕ} (h : s.bytesLeft ≥ sizeT (size * nobjs)) :
    sChunkAlloc size nobjs answers s =
      some (s.sStartFree, nobjs, { s with sStartFree := s.sStartFree + sizeT (size * nobjs) }) := by
  unfold sChunkAlloc
  rw [if_pos h]

/-- The pool holds some of the blocks asked for. -/
theorem sChunkAlloc_fewer {size nobjs : ℕ} {answers : List ℕ} (hless : s.bytesLeft < sizeT (size * nobjs))
    (h : s.bytesLeft ≥ size) :
    sChunkAlloc size nobjs answers s = some (s.sStartFree, s.bytesLeft / size,
      { s with sStartFree := s.sStartFree + sizeT (size * (s.bytesLeft / size)) }) := by
  unfold sChunkAlloc
  rw [if_neg (by omega), if_pos h]

/-- After `_S_end_free = _S_start_free + bytes` the pool has the bytes asked of `malloc`. -/
theorem bytesLeft_grow {bytes : ℕ} (h : bytes < 2 ^ 64) : (s.grow bytes).bytesLeft = bytes := by
  simp only [Arena.bytesLeft, Arena.grow, sizeT]
  omega

/-- The first request to `malloc` succeeds. -/
theorem sChunkAlloc_first {size nobjs first : ℕ} {answers : List ℕ} {s₁ : Arena}
    (hless : s.bytesLeft < sizeT (size * nobjs)) (hsize : s.bytesLeft < size) (hdonate : s.donate = some s₁)
    (hfirst : first ≠ 0) (hbytes : sizeT (size * nobjs) ≤ s.allocBytes (sizeT (size * nobjs))) :
    sChunkAlloc size nobjs (first :: answers) s = some (first, nobjs,
      { (s₁.mallocStart (s.allocBytes (sizeT (size * nobjs))) first).grow (s.allocBytes (sizeT (size * nobjs)))
        with sStartFree := first + sizeT (size * nobjs) }) := by
  have hlt : s.allocBytes (sizeT (size * nobjs)) < 2 ^ 64 := Nat.mod_lt _ (by decide)
  rw [sChunkAlloc, if_neg (by omega), if_neg (by omega), hdonate, Option.bind_some]
  simp only [if_pos hfirst]
  exact sChunkAlloc_whole (by rw [bytesLeft_grow hlt]; exact hbytes)

/-- The first request to `malloc` fails; the answer to the retry is used whatever it is. -/
theorem sChunkAlloc_retry {size nobjs : ℕ} (retry : ℕ) (answers : List ℕ) {s₁ s₂ : Arena}
    (hless : s.bytesLeft < sizeT (size * nobjs)) (hsize : s.bytesLeft < size) (hdonate : s.donate = some s₁)
    (htake : (s₁.mallocStart (s.allocBytes (sizeT (size * nobjs))) 0).takeBlocks size = some s₂)
    (hbytes : sizeT (size * nobjs) ≤ s.allocBytes (sizeT (size * nobjs))) :
    sChunkAlloc size nobjs (0 :: retry :: answers) s = some (retry, nobjs,
      { (({ s₂ with sEndFree := 0 } : Arena).mallocStart (s.allocBytes (sizeT (size * nobjs))) retry).grow
          (s.allocBytes (sizeT (size * nobjs))) with sStartFree := retry + sizeT (size * nobjs) }) := by
  have hlt : s.allocBytes (sizeT (size * nobjs)) < 2 ^ 64 := Nat.mod_lt _ (by decide)
  rw [sChunkAlloc, if_neg (by omega), if_neg (by omega), hdonate, Option.bind_some]
  simp only [ne_eq, not_true_eq_false, if_false, htake, Option.bind_some]
  exact sChunkAlloc_whole (by rw [bytesLeft_grow hlt]; exact hbytes)

/-- Without an answer of `malloc` there is no result. -/
theorem sChunkAlloc_unanswered {size nobjs : ℕ} {answers : List ℕ} (hless : s.bytesLeft < sizeT (size * nobjs))
    (hsize : s.bytesLeft < size) (hanswers : answers = [] ∨ answers = [0]) :
    sChunkAlloc size nobjs answers s = none := by
  rcases hanswers with rfl | rfl
  · rw [sChunkAlloc, if_neg (by omega), if_neg (by omega)]
    exact Option.bind_eq_none_iff.mpr fun _ _ => rfl
  · rw [sChunkAlloc, if_neg (by omega), if_neg (by omega)]
    simp

/-- A pool with a new region serves the request from its front. -/
theorem Lists.grow_take (h : Lists s blocks others) {bytes totalBytes answer : ℕ}
    (hbytes : alignBytes ∣ bytes) (htotal : alignBytes ∣ totalBytes) (hle : totalBytes ≤ bytes)
    (hlt : bytes < 2 ^ 64) (hanswer : answer ≠ 0) (hmalloc : MallocOk (⟨answer, bytes⟩ :: s.regions)) :
    Valid { (s.mallocStart bytes answer).grow bytes with sStartFree := answer + totalBytes } blocks
      (⟨answer, totalBytes⟩ :: others) :=
  (h.grow hbytes hanswer hmalloc).take htotal (by rw [bytesLeft_grow hlt]; exact hle)

namespace Valid

/-- The heap size does not wrap. -/
theorem heap_lt (h : Valid s blocks others) : s.sHeapSize < 2 ^ 64 := by
  rw [h.lists.heap, ← h.lists.tiles.total]
  exact h.lists.total_lt

/-- What `_S_chunk_alloc` returns was taken from the pool, unless `malloc` failed twice. -/
theorem sChunkAlloc (h : Valid s blocks others) {k : Fin nFreelists} {nobjs : ℕ} {answers : List ℕ}
    (hpos : 1 ≤ nobjs) (hle : nobjs ≤ refillObjs) {chunk m : ℕ}
    (hout : StlAlloc.sChunkAlloc (classSize k) nobjs answers s = some (chunk, m, s'))
    (hmalloc : MallocOk s'.regions) (hfail : s.bytesLeft < classSize k → ¬ [0, 0] <+: answers) :
    ∃ blocks' lost, 1 ≤ m ∧ Valid s' blocks' (⟨chunk, classSize k * m⟩ :: (lost ++ others)) ∧
      (∀ j, classSize k ≤ classSize j → blocks j = [] → blocks' j = []) ∧
      (answers.head? ≠ some 0 → lost = []) ∧
      (s.bytesLeft < classSize k → answers.head? = some 0 → FirstsLost blocks k lost) := by
  obtain ⟨htotal, hbound⟩ := totalBytes_eq k hle
  have hk := (classSize_bounds k).1
  have hdvd : alignBytes ∣ classSize k * nobjs := (dvd_classSize k).mul_right nobjs
  by_cases hwhole : s.bytesLeft ≥ sizeT (classSize k * nobjs)
  · rw [sChunkAlloc_whole hwhole, htotal] at hout
    simp only [Option.some.injEq, Prod.mk.injEq] at hout
    obtain ⟨rfl, rfl, rfl⟩ := hout
    rw [htotal] at hwhole
    have hge : classSize k ≤ s.bytesLeft := (Nat.le_mul_of_pos_right _ hpos).trans hwhole
    exact ⟨blocks, [], hpos, h.take hdvd hwhole, fun _ _ => id, fun _ => rfl,
      fun hless => absurd hge (Nat.not_le.mpr hless)⟩
  by_cases hpartial : s.bytesLeft ≥ classSize k
  · have hdiv : classSize k * (s.bytesLeft / classSize k) ≤ s.bytesLeft := Nat.mul_div_le _ _
    have hleft : s.bytesLeft < 2 ^ 64 := Nat.mod_lt _ (by decide)
    rw [sChunkAlloc_fewer (by omega) hpartial, sizeT, Nat.mod_eq_of_lt (by omega)] at hout
    simp only [Option.some.injEq, Prod.mk.injEq] at hout
    obtain ⟨rfl, rfl, rfl⟩ := hout
    exact ⟨blocks, [], Nat.div_pos hpartial (by omega), h.take ((dvd_classSize k).mul_right _) hdiv,
      fun _ _ => id, fun _ => rfl, fun hless => absurd hpartial (Nat.not_le.mpr hless)⟩
  · obtain ⟨s₁, blocks₁, hdonate, hlists, hkeep, hregions, hheap⟩ := h.donate (not_le.mp hpartial)
    obtain ⟨halign, hdouble, hsmall⟩ := allocBytes_spec h.heap_lt hdvd hbound
    have hless := not_le.mp hwhole
    have hsize := not_le.mp hpartial
    rw [← htotal] at hdvd halign hdouble hsmall
    cases answers with
    | nil => simp [sChunkAlloc_unanswered hless hsize (Or.inl rfl)] at hout
    | cons first answers =>
      by_cases hfirst : first ≠ 0
      · rw [sChunkAlloc_first hless hsize hdonate hfirst (by omega)] at hout
        simp only [Option.some.injEq, Prod.mk.injEq] at hout
        obtain ⟨rfl, rfl, rfl⟩ := hout
        simp only [Arena.grow, Arena.mallocStart, if_neg hfirst] at hmalloc
        rw [htotal] at hmalloc hdvd halign hdouble hsmall ⊢
        exact ⟨blocks₁, [], hpos, hlists.grow_take halign hdvd (by omega) (by omega) hfirst hmalloc,
          fun j hj hempty => (hkeep j hj).trans hempty, fun _ => rfl,
          fun _ hzero => absurd (Option.some.inj hzero) hfirst⟩
      · obtain rfl : first = 0 := not_not.mp hfirst
        have hlists' : Lists (s₁.mallocStart (s.allocBytes (sizeT (classSize k * nobjs))) 0) blocks₁ others :=
          hlists.congr rfl rfl (by simp [Arena.mallocStart]) rfl
        obtain ⟨s₂, blocks₂, lost, htake, htook⟩ := hlists'.takeBlocks k
        cases answers with
        | nil => simp [sChunkAlloc_unanswered hless hsize (Or.inr rfl)] at hout
        | cons retry answers =>
          have hretry : retry ≠ 0 := fun hzero => hfail hsize (by simp [hzero])
          rw [sChunkAlloc_retry retry answers hless hsize hdonate htake (by omega)] at hout
          simp only [Option.some.injEq, Prod.mk.injEq] at hout
          obtain ⟨rfl, rfl, rfl⟩ := hout
          simp only [Arena.grow, Arena.mallocStart, if_neg hretry] at hmalloc
          rw [htotal] at hmalloc hdvd halign hdouble hsmall ⊢
          have hend : Lists ({ s₂ with sEndFree := 0 } : Arena) blocks₂ (lost ++ others) :=
            htook.lists.congr rfl rfl rfl rfl
          exact ⟨blocks₂, lost, hpos, hend.grow_take halign hdvd (by omega) (by omega) hretry hmalloc,
            fun j hj hempty => htook.empty j ((hkeep j hj).trans hempty), fun hne => absurd rfl hne,
            fun _ _ j p rest hj hblocks =>
              htook.first j p rest (mem_loopSizes.mpr ⟨j, hj, rfl⟩) ((hkeep j hj).trans hblocks)⟩

/-- `_S_chunk_alloc` returns at least one block when `malloc` succeeds at once. -/
theorem sChunkAlloc_returns (h : Valid s blocks others) (k : Fin nFreelists) {nobjs first : ℕ}
    (answers : List ℕ) (hpos : 1 ≤ nobjs) (hle : nobjs ≤ refillObjs) (hfirst : first ≠ 0) :
    ∃ chunk m s', StlAlloc.sChunkAlloc (classSize k) nobjs (first :: answers) s = some (chunk, m, s') ∧
      1 ≤ m := by
  obtain ⟨htotal, hbound⟩ := totalBytes_eq k hle
  have hk := (classSize_bounds k).1
  by_cases hwhole : s.bytesLeft ≥ sizeT (classSize k * nobjs)
  · exact ⟨_, _, _, sChunkAlloc_whole hwhole, hpos⟩
  by_cases hpartial : s.bytesLeft ≥ classSize k
  · exact ⟨_, _, _, sChunkAlloc_fewer (not_le.mp hwhole) hpartial, Nat.div_pos hpartial (by omega)⟩
  · obtain ⟨s₁, blocks₁, hdonate, -⟩ := h.donate (not_le.mp hpartial)
    obtain ⟨-, hdouble, -⟩ := allocBytes_spec h.heap_lt ((dvd_classSize k).mul_right nobjs) hbound
    rw [← htotal] at hdouble
    exact ⟨_, _, _, sChunkAlloc_first (not_le.mp hwhole) (not_le.mp hpartial) hdonate hfirst (by omega), hpos⟩

/-! ## `_S_refill` and `allocate` -/

/-- `_S_refill` on an empty list hands out one block and threads the others. -/
theorem sRefill (h : Valid s blocks others) {k : Fin nFreelists} {answers : List ℕ} {p : ℕ}
    (hempty : blocks k = []) (hout : StlAlloc.sRefill (classSize k) answers s = some (p, s'))
    (hmalloc : MallocOk s'.regions) (hfail : s.bytesLeft < classSize k → ¬ [0, 0] <+: answers) :
    ∃ blocks' lost, Valid s' blocks' (freeBlock k p :: (lost ++ others)) ∧
      (answers.head? ≠ some 0 → lost = []) ∧
      (s.bytesLeft < classSize k → answers.head? = some 0 → FirstsLost blocks k lost) := by
  rw [StlAlloc.sRefill] at hout
  obtain ⟨⟨chunk, m, s₁⟩, hchunk, hout⟩ := Option.bind_eq_some_iff.mp hout
  have hspec := fun hmalloc => h.sChunkAlloc (by decide) le_rfl hchunk hmalloc hfail
  clear hchunk
  cases m with
  | zero => simp at hout
  | succ m =>
    cases m with
    | zero =>
      simp only [Option.some.injEq, Prod.mk.injEq] at hout
      obtain ⟨rfl, rfl⟩ := hout
      obtain ⟨blocks', lost, -, hvalid, -, hlost⟩ := hspec hmalloc
      rw [Nat.zero_add, Nat.mul_one] at hvalid
      exact ⟨blocks', lost, hvalid, hlost⟩
    | succ rounds =>
      simp only [freeListOf_classSize, Option.map_some, Option.some.injEq, Prod.mk.injEq] at hout
      obtain ⟨rfl, rfl⟩ := hout
      obtain ⟨blocks', lost, -, hvalid, hkeep, hlost⟩ := hspec hmalloc
      have hthread := (hvalid.lists.perm (List.Perm.swap _ _ _)).thread (hkeep k le_rfl hempty)
      exact ⟨_, lost, ⟨hthread.perm (List.Perm.swap _ _ _), hvalid.le⟩, hlost⟩

/-- `_S_refill` returns when `malloc` succeeds at once. -/
theorem sRefill_isSome (h : Valid s blocks others) (k : Fin nFreelists) {first : ℕ} {answers : List ℕ}
    (hfirst : first ≠ 0) : (StlAlloc.sRefill (classSize k) (first :: answers) s).isSome := by
  obtain ⟨chunk, m, s₁, hchunk, hm⟩ := h.sChunkAlloc_returns k answers (by decide) le_rfl hfirst
  rw [StlAlloc.sRefill, hchunk, Option.bind_some]
  match m with
  | 1 => rfl
  | rounds + 2 =>
    simp only [freeListOf_classSize, Option.map_some]
    rfl

/-- The block `allocate` returns was on a free list or in the pool, unless `malloc` failed twice. -/
theorem allocate (h : Valid s blocks others) {n : ℕ} {answers : List ℕ} {p : ℕ} (hpos : 1 ≤ n)
    (hle : n ≤ maxBytes) (hout : StlAlloc.allocate n answers s = some (p, s'))
    (hmalloc : MallocOk s'.regions)
    (hfail : (∃ k, freeListOf n = some k ∧ s.sFreeList k = 0) → s.bytesLeft < sRoundUp n →
      ¬ [0, 0] <+: answers) :
    ∃ blocks' lost, Valid s' blocks' (⟨p, sRoundUp n⟩ :: (lost ++ others)) ∧
      (answers.head? ≠ some 0 → lost = []) ∧
      (∀ k, freeListOf n = some k → s.sFreeList k = 0 → s.bytesLeft < classSize k →
        answers.head? = some 0 → FirstsLost blocks k lost) := by
  obtain ⟨k, hk, hsize⟩ := freeListOf_eq hpos hle
  rw [StlAlloc.allocate, hk, Option.bind_some] at hout
  rw [← hsize] at hfail hout ⊢
  by_cases hzero : s.sFreeList k = 0
  · rw [if_pos hzero] at hout
    obtain ⟨blocks', lost, hvalid, hlost, hfirsts⟩ :=
      h.sRefill (h.lists.head_eq_zero.mp hzero) hout hmalloc (hfail ⟨k, hk, hzero⟩)
    refine ⟨blocks', lost, hvalid, hlost, fun k' hk' _ => ?_⟩
    obtain rfl : k = k' := Option.some.inj (hk.symm.trans hk')
    exact hfirsts
  · rw [if_neg hzero, Option.some.injEq, Prod.mk.injEq] at hout
    obtain ⟨rfl, rfl⟩ := hout
    obtain ⟨q, rest, hblocks⟩ := List.exists_cons_of_ne_nil (mt h.lists.head_eq_zero.mpr hzero)
    obtain ⟨hhead, hlists⟩ := h.lists.pop hblocks
    rw [hhead]
    refine ⟨_, [], ⟨hlists.perm (List.Perm.swap _ _ _), h.le⟩, fun _ => rfl, fun k' hk' hzero' => ?_⟩
    obtain rfl : k = k' := Option.some.inj (hk.symm.trans hk')
    exact absurd hzero' hzero

/-- With the list and the pool exhausted and the first request to `malloc` refused, `allocate` returns
the answer to the retry, whatever the other lists hold. -/
theorem allocate_retry (h : Valid s blocks others) {n : ℕ} {answers : List ℕ} {p : ℕ} (hpos : 1 ≤ n)
    (hle : n ≤ maxBytes) (hempty : (freeListOf n).map s.sFreeList = some 0) (hless : s.bytesLeft < sRoundUp n)
    (hout : StlAlloc.allocate n (0 :: answers) s = some (p, s')) :
    answers.head? = some p ∧ (∃ k, s'.sFreeList k = p + classSize k) ∧
      ∃ bytes, 0 < bytes ∧ s'.regions = if p = 0 then s.regions else ⟨p, bytes⟩ :: s.regions := by
  obtain ⟨k, hk, hsize⟩ := freeListOf_eq hpos hle
  rw [hk, Option.map_some, Option.some.injEq] at hempty
  rw [StlAlloc.allocate, hk, Option.bind_some, if_pos hempty, StlAlloc.sRefill] at hout
  obtain ⟨htotal, hbound⟩ := totalBytes_eq k (le_refl refillObjs)
  rw [← hsize] at hout hless
  obtain ⟨s₁, blocks₁, hdonate, hlists, -, hregions, -⟩ := h.donate hless
  obtain ⟨-, hdouble, -⟩ := allocBytes_spec h.heap_lt ((dvd_classSize k).mul_right refillObjs) hbound
  have hpos := (classSize_bounds k).1
  have hblock : classSize k ≤ classSize k * refillObjs := Nat.le_mul_of_pos_right _ (by decide)
  rw [← htotal] at hdouble hblock
  have hlists' : Lists (s₁.mallocStart (s.allocBytes (sizeT (classSize k * refillObjs))) 0) blocks₁ others :=
    hlists.congr rfl rfl (by simp [Arena.mallocStart]) rfl
  obtain ⟨s₂, _, _, htake, htook⟩ := hlists'.takeBlocks k
  have hsame : s₂.regions = s.regions := by
    simp only [htook.regions, Arena.mallocStart, if_true, hregions]
  cases answers with
  | nil => simp [sChunkAlloc_unanswered (lt_of_lt_of_le hless hblock) hless (Or.inr rfl)] at hout
  | cons retry answers =>
    have hchunk := sChunkAlloc_retry retry answers (lt_of_lt_of_le hless hblock) hless hdonate htake (by omega)
    rw [hchunk, Option.bind_some] at hout
    simp only [refillObjs, freeListOf_classSize, Option.map_some, Option.some.injEq, Prod.mk.injEq] at hout
    obtain ⟨rfl, rfl⟩ := hout
    refine ⟨rfl, ⟨k, by simp⟩, s.allocBytes (sizeT (classSize k * refillObjs)), by omega, ?_⟩
    simp only [Arena.grow, Arena.mallocStart, refillObjs, hsame]

/-- `allocate` returns when `malloc` succeeds at once. -/
theorem allocate_isSome (h : Valid s blocks others) {n first : ℕ} (answers : List ℕ) (hpos : 1 ≤ n)
    (hle : n ≤ maxBytes) (hfirst : first ≠ 0) : (StlAlloc.allocate n (first :: answers) s).isSome := by
  obtain ⟨k, hk, hsize⟩ := freeListOf_eq hpos hle
  rw [StlAlloc.allocate, hk, Option.bind_some]
  split
  · rw [← hsize]
    exact h.sRefill_isSome k hfirst
  · rfl

/-- `deallocate` puts a block back on the list of its class. -/
theorem deallocate {p n : ℕ} (h : Valid s blocks (⟨p, sRoundUp n⟩ :: others)) (hpos : 1 ≤ n)
    (hle : n ≤ maxBytes) :
    ∃ s' blocks', StlAlloc.deallocate p n s = some s' ∧ Valid s' blocks' others ∧ s'.regions = s.regions := by
  obtain ⟨k, hk, hsize⟩ := freeListOf_eq hpos hle
  rw [← hsize] at h
  refine ⟨s.pushFree k p, Function.update blocks k (p :: blocks k), ?_, ⟨?_, h.le⟩, rfl⟩
  · rw [StlAlloc.deallocate, hk, Option.map_some]
  · exact (h.lists.perm (List.Perm.swap _ _ _)).push

end Valid

end CppProject.StlAlloc
