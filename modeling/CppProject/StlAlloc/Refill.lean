import CppProject.StlAlloc.FreeLists

/-!
# Taking memory from the pool and from `malloc`

What `_S_chunk_alloc` and `_S_refill` do to the tiling. The remainder of the pool is a multiple
of 8 and smaller than the request, so it is donated to the list of a smaller class; the list
that `_S_refill` overwrites is still empty then. Blocks the failure loop takes off the lists
are listed as `lost`: after a successful retry they belong to nobody.
-/

namespace CppProject.StlAlloc

open AddressInterval PointerChain

variable {s s' : Arena} {blocks : Fin nFreelists → List ℕ} {others : List Interval}

/-! ## The threading loop -/

/-- The objects the threading loop visits. -/
def objs (n : ℕ) : ℕ → ℕ → List ℕ
  | 0, current => [current]
  | rounds + 1, current => current :: objs n rounds (current + n)

/-- No block lies in front of the first. -/
theorem le_of_mem_objs {n rounds current a : ℕ} (h : a ∈ objs n rounds current) : current ≤ a := by
  induction rounds generalizing current with
  | zero => exact (List.mem_singleton.mp h).ge
  | succ rounds ih =>
    rcases List.mem_cons.mp h with rfl | h
    · exact le_refl a
    · exact (Nat.le_add_right _ _).trans (ih h)

/-- Aligned blocks of an aligned size. -/
theorem dvd_of_mem_objs {d n rounds current a : ℕ} (hn : d ∣ n) (hcurrent : d ∣ current)
    (h : a ∈ objs n rounds current) : d ∣ a := by
  induction rounds generalizing current with
  | zero => exact List.mem_singleton.mp h ▸ hcurrent
  | succ rounds ih =>
    rcases List.mem_cons.mp h with rfl | h
    · exact hcurrent
    · exact ih (Nat.dvd_add hcurrent hn) h

/-- The objects tile the chunk. -/
theorem objs_tiles (n rounds current : ℕ) :
    Tiles ((objs n rounds current).map fun p => ⟨p, n⟩) [⟨current, n * (rounds + 1)⟩] := by
  induction rounds generalizing current with
  | zero =>
    rw [Nat.zero_add, Nat.mul_one]
    exact Tiles.refl _
  | succ rounds ih =>
    have hsize : n * (rounds + 1 + 1) = n + n * (rounds + 1) := by rw [Nat.mul_succ, Nat.add_comm]
    rw [hsize]
    exact ((ih (current + n)).cons ⟨current, n⟩).trans (Tiles.split _ _ _).symm

/-- The loop writes into the objects only. -/
theorem threadObjs_of_not_mem {n rounds current a : ℕ} (link : ℕ → ℕ)
    (h : a ∉ objs n rounds current) : threadObjs n rounds current link a = link a := by
  induction rounds generalizing current link with
  | zero => exact Function.update_of_ne (fun heq => h (List.mem_singleton.mpr heq)) _ _
  | succ rounds ih =>
    have hne : a ≠ current := fun heq => h (heq ▸ List.mem_cons_self)
    rw [threadObjs, ih _ fun hmem => h (List.mem_cons_of_mem _ hmem), Function.update_of_ne hne]

/-- The loop threads the objects into a null-terminated chain. -/
theorem threadObjs_chain {n : ℕ} (hn : 0 < n) (rounds : ℕ) {current : ℕ} (hcurrent : current ≠ 0)
    (link : ℕ → ℕ) :
    Chain (fun a => ptr (threadObjs n rounds current link a)) (ptr current) (objs n rounds current) := by
  induction rounds generalizing current link with
  | zero => exact ⟨ptr_of_ne hcurrent, by simp [threadObjs, ptr_eq_none]⟩
  | succ rounds ih =>
    refine ⟨ptr_of_ne hcurrent, ?_⟩
    have hself : threadObjs n (rounds + 1) current link current = current + n := by
      rw [threadObjs, threadObjs_of_not_mem, Function.update_self]
      intro hmem
      have := le_of_mem_objs hmem
      omega
    simp only [hself]
    exact ih (by omega) _

/-- Threading all objects of a chunk but the first onto an empty list. -/
theorem Lists.thread {k : Fin nFreelists} {chunk rounds : ℕ}
    (h : Lists s blocks (⟨chunk, classSize k * (rounds + 2)⟩ :: others)) (hk : blocks k = []) :
    Lists { s with sFreeList := Function.update s.sFreeList k (chunk + classSize k)
                   link := threadObjs (classSize k) rounds (chunk + classSize k) s.link }
      (Function.update blocks k (objs (classSize k) rounds (chunk + classSize k)))
      (freeBlock k chunk :: others) := by
  have hpos := (classSize_bounds k).1
  have hchunk := (h.aligned _ (List.mem_append_right _ List.mem_cons_self)).1
  -- The chunk is cut into its objects.
  have hcut : Lists s blocks (freeBlock k chunk ::
      ((objs (classSize k) rounds (chunk + classSize k)).map (freeBlock k) ++ others)) := by
    refine h.retile ?_ fun i hi => ?_
    · have hsize : classSize k * (rounds + 2) = classSize k + classSize k * (rounds + 1) := by
        rw [Nat.mul_succ, Nat.add_comm]
      rw [hsize]
      have htail := ((objs_tiles (classSize k) rounds (chunk + classSize k)).cons (freeBlock k chunk)).trans
        (Tiles.split chunk (classSize k) (classSize k * (rounds + 1))).symm
      exact htail.append (Tiles.refl others)
    · rcases List.mem_cons.mp hi with rfl | hi
      · exact ⟨hchunk, dvd_classSize k⟩
      · rcases List.mem_append.mp hi with hi | hi
        · obtain ⟨p, hp, rfl⟩ := List.mem_map.mp hi
          exact ⟨dvd_of_mem_objs (dvd_classSize k) (Nat.dvd_add hchunk (dvd_classSize k)) hp,
            dvd_classSize k⟩
        · exact h.aligned i (List.mem_append_right _ (List.mem_cons_of_mem _ hi))
  have hperm := freeBlocks_update_perm blocks k (objs (classSize k) rounds (chunk + classSize k))
  rw [hk, List.append_nil] at hperm
  have hperm' : (freeBlocks (Function.update blocks k (objs (classSize k) rounds (chunk + classSize k))) ++
      freeBlock k chunk :: others).Perm (freeBlocks blocks ++ freeBlock k chunk ::
        ((objs (classSize k) rounds (chunk + classSize k)).map (freeBlock k) ++ others)) := by
    refine (hperm.append_right _).trans ?_
    refine (List.perm_append_comm.append_right _).trans ?_
    rw [List.append_assoc]
    exact ((List.perm_middle).append_left _)
  refine ⟨fun j => ?_, (Tiles.of_perm hperm').trans hcut.tiles,
    fun i hi => hcut.aligned i (hperm'.mem_iff.mp hi), h.malloc, h.heap⟩
  by_cases hj : j = k
  · subst hj
    simp only [Function.update_self]
    exact threadObjs_chain (by omega) rounds (by omega) s.link
  · simp only [Function.update_of_ne hj]
    refine (h.chain j).congr fun a ha => ?_
    rw [threadObjs_of_not_mem]
    intro hmem
    have hother : freeBlock k a ∈ freeBlock k chunk ::
        ((objs (classSize k) rounds (chunk + classSize k)).map (freeBlock k) ++ others) :=
      List.mem_cons_of_mem _ (List.mem_append_left _ (List.mem_map_of_mem hmem))
    exact hcut.not_listed hother ⟨le_refl a, by simp only [freeBlock]; omega⟩ j ha

/-! ## The pool -/

/-- The remaining pool. -/
def Arena.pool (s : Arena) : Interval := ⟨s.sStartFree, s.sEndFree - s.sStartFree⟩

/-- The lists, the pool and the other intervals tile the regions. -/
structure Valid (s : Arena) (blocks : Fin nFreelists → List ℕ) (others : List Interval) : Prop where
  lists : Lists s blocks (s.pool :: others)
  le : s.sStartFree ≤ s.sEndFree

namespace Valid

/-- The size of the pool does not wrap. -/
theorem bytesLeft_eq (h : Valid s blocks others) : s.bytesLeft = s.sEndFree - s.sStartFree := by
  have hlt := h.lists.total_lt
  simp only [total_append, total_cons, Arena.pool] at hlt
  have hle := h.le
  rw [Arena.bytesLeft, sizeT]
  omega

/-- The bounds of the pool are multiples of 8. -/
theorem dvd_pool (h : Valid s blocks others) :
    alignBytes ∣ s.sStartFree ∧ alignBytes ∣ s.sEndFree - s.sStartFree :=
  h.lists.aligned s.pool (List.mem_append_right _ List.mem_cons_self)

/-- Cutting a chunk off the front of the pool. -/
theorem take (h : Valid s blocks others) {n : ℕ} (hdvd : alignBytes ∣ n) (hle : n ≤ s.bytesLeft) :
    Valid { s with sStartFree := s.sStartFree + n } blocks (⟨s.sStartFree, n⟩ :: others) := by
  obtain ⟨hstart, hsize⟩ := h.dvd_pool
  rw [h.bytesLeft_eq] at hle
  have hbound := h.le
  refine ⟨?_, by simp only; omega⟩
  have hpool : s.sEndFree - s.sStartFree = n + (s.sEndFree - (s.sStartFree + n)) := by omega
  have hcut := Tiles.split s.sStartFree n (s.sEndFree - (s.sStartFree + n))
  rw [← hpool] at hcut
  have hlists : Lists s blocks (⟨s.sStartFree, n⟩ ::
      ⟨s.sStartFree + n, s.sEndFree - (s.sStartFree + n)⟩ :: others) := by
    refine h.lists.retile (hcut.symm.append (Tiles.refl others)) fun i hi => ?_
    rcases List.mem_cons.mp hi with rfl | hi
    · exact ⟨hstart, hdvd⟩
    · rcases List.mem_cons.mp hi with rfl | hi
      · exact ⟨Nat.dvd_add hstart hdvd, (Nat.dvd_add_right hdvd).mp (hpool ▸ hsize)⟩
      · exact h.lists.aligned i (List.mem_append_right _ (List.mem_cons_of_mem _ hi))
  exact (hlists.perm (List.Perm.swap _ _ _)).congr rfl rfl rfl rfl

/-- Donating the remainder of a pool that is too small for a block of class `k`. -/
theorem donate (h : Valid s blocks others) {k : Fin nFreelists} (hsmall : s.bytesLeft < classSize k) :
    ∃ s' blocks', s.donate = some s' ∧ Lists s' blocks' others ∧
      (∀ j, classSize k ≤ classSize j → blocks' j = blocks j) ∧ s'.regions = s.regions ∧
      s'.sHeapSize = s.sHeapSize := by
  have hleft := h.bytesLeft_eq
  rw [Arena.donate]
  by_cases hpos : s.bytesLeft > 0
  · rw [if_pos hpos]
    obtain ⟨j, hj⟩ := exists_classSize hpos (hsmall.le.trans (classSize_bounds k).2)
      (hleft ▸ h.dvd_pool.2)
    have hpool : s.pool = freeBlock j s.sStartFree := by rw [Arena.pool, freeBlock, hj, hleft]
    refine ⟨s.pushFree j s.sStartFree, _, ?_, Lists.push (hpool ▸ h.lists), fun i hi => ?_, rfl, rfl⟩
    · rw [← hj, freeListOf_classSize, Option.map_some]
    · have hne : i ≠ j := fun heq => by
        subst heq
        omega
      exact Function.update_of_ne hne _ _
  · rw [if_neg hpos]
    refine ⟨s, blocks, rfl, h.lists.retile ?_ fun i hi => ?_, fun _ _ => rfl, rfl, rfl⟩
    · have hempty : s.pool = ⟨s.sStartFree, 0⟩ := by
        rw [Arena.pool, ← hleft]
        congr
        omega
      rw [hempty]
      exact (Tiles.empty _).symm.append (Tiles.refl others)
    · exact h.lists.aligned i (by
        rcases List.mem_append.mp (List.mem_append_right (freeBlocks blocks) hi) with hi | hi
        · exact List.mem_append_left _ hi
        · exact List.mem_append_right _ (List.mem_cons_of_mem _ hi))

end Valid

/-- A new region becomes the pool. -/
theorem Lists.grow (h : Lists s blocks others) {bytes answer : ℕ} (hbytes : alignBytes ∣ bytes)
    (hanswer : answer ≠ 0) (hmalloc : MallocOk (⟨answer, bytes⟩ :: s.regions)) :
    Valid ((s.mallocStart bytes answer).grow bytes) blocks others := by
  have halign := (hmalloc.region _ List.mem_cons_self).2.1
  have hsize := total_le hmalloc.disjoint (fun r hr => (hmalloc.region r hr).1)
    fun r hr => (hmalloc.region r hr).2.2
  simp only [total_cons] at hsize
  have hpool : ((s.mallocStart bytes answer).grow bytes).pool = ⟨answer, bytes⟩ := by
    simp only [Arena.pool, Arena.grow, Arena.mallocStart, Nat.add_sub_cancel_left]
  have hregions : ((s.mallocStart bytes answer).grow bytes).regions = ⟨answer, bytes⟩ :: s.regions := by
    simp only [Arena.grow, Arena.mallocStart, if_neg hanswer]
  refine ⟨⟨h.chain, ?_, fun i hi => ?_, hregions ▸ hmalloc, ?_⟩, Nat.le_add_right _ _⟩
  · rw [hpool, hregions]
    exact (Tiles.of_perm List.perm_middle).trans (h.tiles.cons _)
  · rw [hpool] at hi
    rcases List.mem_cons.mp (List.perm_middle.mem_iff.mp hi) with rfl | hi
    · exact ⟨halign, hbytes⟩
    · exact h.aligned i hi
  · rw [hregions, total_cons]
    simp only [Arena.grow, Arena.mallocStart, h.heap, sizeT]
    omega

end CppProject.StlAlloc
