import CppProject.StlAlloc.Partition

/-!
# The data of the clients

The links of the free lists are kept inside the free blocks, in the same memory as the data of the clients.
`_S_chunk_alloc` writes one link at most, at the front of the old pool, and `_S_refill` writes links inside the new
chunk; neither is held by a client. So as long as no call sees `malloc` fail twice, a block keeps what its client has
written, whatever is allocated, given back and written elsewhere.
-/

namespace CppProject.StlAlloc

open AddressInterval PointerChain Transition

variable {s s' : Arena} {w w' : World} {blocks : Fin nFreelists → List ℕ} {others lost : List Interval}

/-! ## Where a chunk comes from -/

/-- The failure loop writes no link. -/
theorem takeBlock_link {i : ℕ} (h : s.takeBlock i = some s') : s'.link = s.link := by
  obtain ⟨k, -, hrun⟩ := Option.bind_eq_some_iff.mp h
  split at hrun
  · obtain rfl := Option.some.inj hrun
    rfl
  · rw [Option.some.inj hrun]

/-- Cutting the pool writes no link. -/
theorem takeBlocks_link {size : ℕ} (h : s.takeBlocks size = some s') : s'.link = s.link := by
  rw [Arena.takeBlocks] at h
  generalize List.range' size ((maxBytes + alignBytes - size) / alignBytes) alignBytes = sizes at h
  induction sizes generalizing s with
  | nil =>
    rw [List.foldlM_nil] at h
    rw [Option.some.inj h]
  | cons i sizes ih =>
    rw [List.foldlM_cons] at h
    obtain ⟨s₁, hround, hrest⟩ := Option.bind_eq_some_iff.mp h
    rw [ih hrest, takeBlock_link hround]

/-- A chunk is cut from the pool; or the pool is donated and a new region serves the request, at once or after the
failure loop. -/
inductive ChunkFrom (s s' : Arena) (size nobjs m : ℕ) (answers : List ℕ) : Prop
  | pool : s'.link = s.link → s'.sFreeList = s.sFreeList → s'.regions = s.regions → ChunkFrom s s' size nobjs m answers
  | region {s₁ : Arena} {r : Interval} : s.donate = some s₁ → s'.link = s₁.link → s.bytesLeft < size →
      s'.sFreeList = s₁.sFreeList → s'.regions = r :: s₁.regions → m = nobjs → ChunkFrom s s' size nobjs m answers
  | retry {s₁ : Arena} : s.donate = some s₁ → s'.link = s₁.link → 0 ∈ answers → ChunkFrom s s' size nobjs m answers

/-- Where a chunk comes from. -/
theorem Valid.chunkFrom (h : Valid s blocks others) {k : Fin nFreelists} {nobjs chunk m : ℕ} {answers : List ℕ}
    (hle : nobjs ≤ refillObjs) (hout : StlAlloc.sChunkAlloc (classSize k) nobjs answers s = some (chunk, m, s')) :
    ChunkFrom s s' (classSize k) nobjs m answers := by
  obtain ⟨htotal, hbound⟩ := totalBytes_eq k hle
  obtain ⟨-, hdouble, -⟩ := allocBytes_spec h.heap_lt ((dvd_classSize k).mul_right nobjs) hbound
  rw [← htotal] at hdouble
  by_cases hwhole : s.bytesLeft ≥ sizeT (classSize k * nobjs)
  · rw [sChunkAlloc_whole hwhole] at hout
    simp only [Option.some.injEq, Prod.mk.injEq] at hout
    obtain ⟨-, -, rfl⟩ := hout
    exact .pool rfl rfl rfl
  by_cases hpartial : s.bytesLeft ≥ classSize k
  · rw [sChunkAlloc_fewer (not_le.mp hwhole) hpartial] at hout
    simp only [Option.some.injEq, Prod.mk.injEq] at hout
    obtain ⟨-, -, rfl⟩ := hout
    exact .pool rfl rfl rfl
  have hless := not_le.mp hwhole
  have hsize := not_le.mp hpartial
  obtain ⟨s₁, blocks₁, hdonate, hlists, -⟩ := h.donate hsize
  cases answers with
  | nil => simp [sChunkAlloc_unanswered hless hsize (Or.inl rfl)] at hout
  | cons first answers =>
    by_cases hfirst : first ≠ 0
    · rw [sChunkAlloc_first hless hsize hdonate hfirst (by omega)] at hout
      simp only [Option.some.injEq, Prod.mk.injEq] at hout
      obtain ⟨-, rfl, rfl⟩ := hout
      refine .region (r := ⟨first, s.allocBytes (sizeT (classSize k * nobjs))⟩) hdonate rfl hsize rfl ?_ rfl
      simp only [Arena.grow, Arena.mallocStart, if_neg hfirst]
    · obtain rfl : first = 0 := not_not.mp hfirst
      have hlists' : Lists (s₁.mallocStart (s.allocBytes (sizeT (classSize k * nobjs))) 0) blocks₁ others :=
        hlists.congr rfl rfl (by simp [Arena.mallocStart]) rfl
      obtain ⟨s₂, _, _, htake, -⟩ := hlists'.takeBlocks k
      cases answers with
      | nil => simp [sChunkAlloc_unanswered hless hsize (Or.inr rfl)] at hout
      | cons retry answers =>
        rw [sChunkAlloc_retry retry answers hless hsize hdonate htake (by omega)] at hout
        simp only [Option.some.injEq, Prod.mk.injEq] at hout
        obtain ⟨-, -, rfl⟩ := hout
        have hlink : s₂.link = s₁.link := (takeBlocks_link htake).trans rfl
        exact .retry hdonate hlink List.mem_cons_self

/-! ## What is written -/

/-- The remainder of a pool is donated inside the pool. -/
theorem Valid.donate_link (h : Valid s blocks others) {s₁ : Arena} (hdonate : s.donate = some s₁) {i : Interval}
    (hi : i ∈ others) {a : ℕ} (ha : i.Mem a) : s₁.link a = s.link a := by
  rw [Arena.donate] at hdonate
  split at hdonate
  · next hpos =>
    obtain ⟨j, -, rfl⟩ := Option.map_eq_some_iff.mp hdonate
    have hpool : s.pool.Mem s.sStartFree := by
      rw [h.bytesLeft_eq] at hpos
      exact ⟨le_rfl, by simp only [Arena.pool]; omega⟩
    have hne : a ≠ s.sStartFree := fun heq => by
      obtain ⟨-, hothers, -⟩ := List.pairwise_append.mp h.lists.disjoint
      exact (List.pairwise_cons.mp hothers).1 i hi s.sStartFree hpool (heq ▸ ha)
    exact Function.update_of_ne hne _ _
  · rw [Option.some.inj hdonate]

/-- A chunk is obtained without writing into anything else. -/
theorem Valid.sChunkAlloc_link (h : Valid s blocks others) {k : Fin nFreelists} {nobjs chunk m : ℕ} {answers : List ℕ}
    (hle : nobjs ≤ refillObjs) (hout : StlAlloc.sChunkAlloc (classSize k) nobjs answers s = some (chunk, m, s'))
    {i : Interval}
    (hi : i ∈ others) {a : ℕ} (ha : i.Mem a) : s'.link a = s.link a := by
  cases h.chunkFrom hle hout with
  | pool hlink => rw [hlink]
  | region hdonate hlink => rw [hlink, h.donate_link hdonate hi ha]
  | retry hdonate hlink => rw [hlink, h.donate_link hdonate hi ha]

/-- The objects of a chunk lie inside it. -/
theorem mem_of_mem_objs {n rounds current a : ℕ} (hn : 0 < n) (ha : a ∈ objs n rounds current) :
    (⟨current, n * (rounds + 1)⟩ : Interval).Mem a := by
  refine ((objs_tiles n rounds current).mem_iff a).mp ⟨_, List.mem_map_of_mem ha, ?_⟩ |>.elim fun r hr => ?_
  · exact ⟨le_rfl, by simp only; omega⟩
  · obtain rfl := List.mem_singleton.mp hr.1
    exact hr.2

/-- `_S_refill` writes links inside the new chunk only. -/
theorem Valid.sRefill_link (h : Valid s blocks others) {k : Fin nFreelists} {answers : List ℕ} {p : ℕ}
    (hout : StlAlloc.sRefill (classSize k) answers s = some (p, s')) (hmalloc : MallocOk s'.regions)
    (hfail : s.bytesLeft < classSize k → ¬ [0, 0] <+: answers) {i : Interval} (hi : i ∈ others) {a : ℕ}
    (ha : i.Mem a) : s'.link a = s.link a := by
  rw [StlAlloc.sRefill] at hout
  obtain ⟨⟨chunk, m, s₁⟩, hchunk, hout⟩ := Option.bind_eq_some_iff.mp hout
  have hlink := h.sChunkAlloc_link le_rfl hchunk hi ha
  have hspec := fun hmalloc => h.sChunkAlloc (by decide) le_rfl hchunk hmalloc hfail
  clear hchunk
  cases m with
  | zero => simp at hout
  | succ m =>
    cases m with
    | zero =>
      simp only [Option.some.injEq, Prod.mk.injEq] at hout
      obtain ⟨rfl, rfl⟩ := hout
      exact hlink
    | succ rounds =>
      simp only [freeListOf_classSize, Option.map_some, Option.some.injEq, Prod.mk.injEq] at hout
      obtain ⟨rfl, rfl⟩ := hout
      obtain ⟨blocks', lost', -, hvalid, -⟩ := hspec hmalloc
      have hk := (classSize_bounds k).1
      change threadObjs (classSize k) rounds (chunk + classSize k) s₁.link a = s.link a
      rw [threadObjs_of_not_mem, hlink]
      intro hmem
      have hin := mem_of_mem_objs (by omega) hmem
      obtain ⟨-, hothers, -⟩ := List.pairwise_append.mp hvalid.lists.disjoint
      obtain ⟨-, hothers⟩ := List.pairwise_cons.mp hothers
      refine (List.pairwise_cons.mp hothers).1 i (List.mem_append_right _ hi) a ⟨?_, ?_⟩ ha
      · exact (Nat.le_add_right _ _).trans hin.1
      · have hlt := hin.2
        simp only [Nat.mul_succ] at hlt ⊢
        omega

/-- `allocate` writes into none of the other intervals. -/
theorem Valid.allocate_link (h : Valid s blocks others) {n : ℕ} {answers : List ℕ} {p : ℕ} (hpos : 1 ≤ n)
    (hle : n ≤ maxBytes) (hout : StlAlloc.allocate n answers s = some (p, s')) (hmalloc : MallocOk s'.regions)
    (hfail : (∃ k, freeListOf n = some k ∧ s.sFreeList k = 0) → s.bytesLeft < sRoundUp n → ¬ [0, 0] <+: answers)
    {i : Interval} (hi : i ∈ others) {a : ℕ} (ha : i.Mem a) : s'.link a = s.link a := by
  obtain ⟨k, hk, hsize⟩ := freeListOf_eq hpos hle
  rw [StlAlloc.allocate, hk, Option.bind_some, ← hsize] at hout
  by_cases hzero : s.sFreeList k = 0
  · rw [if_pos hzero] at hout
    exact h.sRefill_link hout hmalloc (fun hless => hfail ⟨k, hk, hzero⟩ (hsize ▸ hless)) hi ha
  · rw [if_neg hzero, Option.some.injEq, Prod.mk.injEq] at hout
    obtain ⟨-, rfl⟩ := hout
    rfl

/-! ## What a client reads -/

/-- The call writes the block of a client, or gives it back. -/
def Call.Touches (e : ℕ × ℕ) : Call → Prop
  | .allocate _ _ => False
  | .deallocate p n => (p, n) = e
  | .write p n _ => (p, n) = e

instance (e : ℕ × ℕ) : (call : Call) → Decidable (call.Touches e)
  | .allocate _ _ => inferInstanceAs (Decidable False)
  | .deallocate p n => inferInstanceAs (Decidable ((p, n) = e))
  | .write p n _ => inferInstanceAs (Decidable ((p, n) = e))

/-- The block is held, and what its client reads in it is the given data. -/
def Keeps (e : ℕ × ℕ) (data : ℕ → ℕ) (w : World) : Prop :=
  e ∈ w.held ∧ ∀ a, (heldBlock e).Mem a → w.arena.link a = data a

/-- Two entries of the record are one or are apart. -/
theorem Owned.eq_or_disjoint (h : Owned w blocks lost) {e f : ℕ × ℕ} (he : e ∈ w.held) (hf : f ∈ w.held) :
    e = f ∨ (heldBlock f).Disjoint (heldBlock e) := by
  by_cases heq : e = f
  · exact Or.inl heq
  obtain ⟨-, hothers, -⟩ := List.pairwise_append.mp h.valid.lists.disjoint
  obtain ⟨-, hothers⟩ := List.pairwise_cons.mp hothers
  obtain ⟨hheld, -, -⟩ := List.pairwise_append.mp hothers
  have hsymm : Std.Symm fun i j : ℕ × ℕ => (heldBlock i).Disjoint (heldBlock j) :=
    ⟨fun i j hij x hj hi => hij x hi hj⟩
  exact Or.inr ((List.pairwise_map.mp hheld).forall hf he (Ne.symm heq))

/-- A step that does not touch a block leaves it with its client, and leaves its data. -/
theorem Owned.keeps_step (h : Owned w blocks lost) {call : Call} (hstep : Step w call w')
    (hfail : ¬ MallocFailsTwice w call) {e : ℕ × ℕ} {data : ℕ → ℕ} (hkeeps : Keeps e data w)
    (htouch : ¬ call.Touches e) : Keeps e data w' := by
  obtain ⟨hvalid, hexec, hmalloc⟩ := hstep
  obtain ⟨he, hdata⟩ := hkeeps
  have hother : heldBlock e ∈ w.held.map heldBlock ++ lost := List.mem_append_left _ (List.mem_map_of_mem he)
  cases call with
  | allocate n answers =>
    rw [Call.exec] at hexec
    obtain ⟨⟨p, s⟩, hout, rfl⟩ := Option.map_eq_some_iff.mp hexec
    refine ⟨?_, fun a ha => ?_⟩
    · change e ∈ if p = 0 then w.held else (p, n) :: w.held
      split
      · exact he
      · exact List.mem_cons_of_mem _ he
    · rw [← hdata a ha]
      refine h.valid.allocate_link hvalid.1 hvalid.2 hout hmalloc (fun hempty hless hpre => ?_) hother ha
      obtain ⟨k, hk, hzero⟩ := hempty
      exact hfail ⟨by rw [hk, Option.map_some, hzero], hless, hpre⟩
  | deallocate p n =>
    rw [Call.exec, deallocate] at hexec
    obtain ⟨s, hout, rfl⟩ := Option.map_eq_some_iff.mp hexec
    obtain ⟨k, -, rfl⟩ := Option.map_eq_some_iff.mp hout
    refine ⟨(List.mem_erase_of_ne (Ne.symm htouch)).mpr he, fun a ha => ?_⟩
    -- the link is written at the front of the block that is given back
    have hsize := le_sRoundUp (h.sizes _ hvalid).2
    have hpos := (h.sizes _ hvalid).1
    have hfront : (heldBlock (p, n)).Mem p := ⟨le_rfl, by simp only [heldBlock] at hsize ⊢; omega⟩
    have hne : a ≠ p := fun heq =>
      ((h.eq_or_disjoint hvalid he).resolve_left htouch) p (heq ▸ ha) hfront
    exact (Function.update_of_ne hne _ _).trans (hdata a ha)
  | write p n other =>
    obtain rfl := Option.some.inj hexec
    refine ⟨he, fun a ha => ?_⟩
    have hout : ¬ (heldBlock (p, n)).Mem a :=
      ((h.eq_or_disjoint hvalid he).resolve_left htouch) a ha
    exact (if_neg hout).trans (hdata a ha)

/-- In every run without a double failure of `malloc`, what a client has written into a block is what it reads there
after any calls that neither write that block nor give it back. -/
theorem read_after_write {memory : ℕ → ℕ} {e : ℕ × ℕ} {data : ℕ → ℕ} {calls : List Call} {written : World}
    (h : Transition.Reachable (· = World.new memory) (Restrict Step fun w call => ¬ MallocFailsTwice w call) w)
    (hwrite : Step w (.write e.1 e.2 data) written)
    (hrun : Run (Restrict Step fun w call => ¬ MallocFailsTwice w call ∧ ¬ call.Touches e) written calls w') :
    Keeps e data w' := by
  obtain ⟨blocks, lost, howned⟩ := Reachable.owned h
  obtain ⟨blocks₁, lost₁, howned₁, -⟩ := howned.step hwrite id
  have hkeeps : Keeps e data written := by
    obtain ⟨hheld, hexec, -⟩ := hwrite
    obtain rfl := Option.some.inj hexec
    exact ⟨hheld, fun a ha => if_pos ha⟩
  refine (Run.preserves (P := fun w => (∃ blocks lost, Owned w blocks lost) ∧ Keeps e data w)
    (fun w call w' hw hstep => ?_) ⟨⟨_, _, howned₁⟩, hkeeps⟩ hrun).2
  obtain ⟨⟨blocks, lost, howned⟩, hkeeps⟩ := hw
  obtain ⟨blocks', lost', howned', -⟩ := howned.step hstep.1 hstep.2.1
  exact ⟨⟨_, _, howned'⟩, howned.keeps_step hstep.1 hstep.2.1 hkeeps hstep.2.2⟩

/-- A block is written, and then others are allocated, written and given back. -/
theorem read_after_write_run : ∃ w : World, w.held = [(4256, 17), (4104, 8), (4096, 7)] ∧
    Keeps (4096, 7) (fun a => a + 1) w := by
  have hrun : (replay (guard (fun w call => ¬ MallocFailsTwice w call) Call.check) (World.new fun _ => 0)
      [.allocate 7 [4096], .allocate 8 []]).bind (fun w => (Call.check w (.write 4096 7 fun a => a + 1)).bind
        fun w => (replay (guard (fun w call => ¬ MallocFailsTwice w call ∧ ¬ call.Touches (4096, 7)) Call.check) w
          [.allocate 24 [], .write 4104 8 fun _ => 9, .deallocate 4256 24, .allocate 17 []]).map World.held) =
      some [(4256, 17), (4104, 8), (4096, 7)] := by decide +kernel
  obtain ⟨w, hfirst, hrun⟩ := Option.bind_eq_some_iff.mp hrun
  obtain ⟨written, hwrite, hrun⟩ := Option.bind_eq_some_iff.mp hrun
  obtain ⟨w', hlater, hheld⟩ := Option.map_eq_some_iff.mp hrun
  exact ⟨w', hheld, read_after_write
    (Transition.Reachable.replay_guard (fun _ _ _ => Call.step_of_check) (.init rfl) hfirst)
    (Call.step_of_check hwrite) (Run.replay_guard (fun _ _ _ => Call.step_of_check) hlater)⟩

end CppProject.StlAlloc
