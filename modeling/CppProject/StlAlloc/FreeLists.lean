import CppProject.StlAlloc.Arena
import CppProject.Lib.PointerChain

/-!
# Free lists as tilings

`Lists s blocks others` says that the 16 lists are chains of the given blocks, and that these
blocks together with the other intervals tile the regions `malloc` has returned. Putting a
block on a list, taking one off and threading a chunk only move intervals between the lists
and the others.
-/

namespace CppProject.StlAlloc

open AddressInterval PointerChain

/-! ## Size classes -/

/-- The size of the blocks on a list. -/
def classSize (k : Fin nFreelists) : ℕ := alignBytes * (k + 1)

/-- Masking the low bits out. -/
theorem and_align_mask (x : ℕ) (hx : x < 2 ^ 64) :
    x &&& (2 ^ 64 - 1 - (alignBytes - 1)) = x / alignBytes * alignBytes := by
  have hmask : 2 ^ 64 - 1 - (alignBytes - 1) = 2 ^ 3 * (2 ^ 61 - 1) := by decide
  have halign : alignBytes = 2 ^ 3 := by decide
  rw [hmask, halign, Nat.mul_comm _ (2 ^ 3)]
  apply Nat.eq_of_testBit_eq
  intro i
  rw [Nat.testBit_and, Nat.testBit_two_pow_mul, Nat.testBit_two_pow_mul, Nat.testBit_two_pow_sub_one,
    Nat.testBit_div_two_pow]
  by_cases hi : 3 ≤ i
  · rw [Nat.sub_add_cancel hi]
    by_cases hlow : i < 64
    · simp [hi, show i - 3 < 61 by omega]
    · have hzero : x.testBit i = false :=
        Nat.testBit_lt_two_pow (lt_of_lt_of_le hx (Nat.pow_le_pow_right (by decide) (by omega)))
      simp [hzero]
  · simp [hi]

/-- `_S_round_up` is the least multiple of 8 above its argument. -/
theorem sRoundUp_eq {bytes : ℕ} (h : bytes + 8 ≤ 2 ^ 64) : sRoundUp bytes = (bytes + 7) / 8 * 8 := by
  have hlt : bytes + 7 < 2 ^ 64 := by omega
  have hadd : bytes + alignBytes - 1 = bytes + 7 := rfl
  rw [sRoundUp, sizeT, and_align_mask _ (Nat.mod_lt _ (by decide)), hadd, Nat.mod_eq_of_lt hlt]
  rfl

/-- A block is large enough for its request. -/
theorem le_sRoundUp {n : ℕ} (hle : n ≤ maxBytes) : n ≤ sRoundUp n := by
  simp only [maxBytes] at hle
  rw [sRoundUp_eq (by omega)]
  omega

/-- A request of 1 to 128 bytes goes to the list of its rounded size. -/
theorem freeListOf_eq {n : ℕ} (hpos : 1 ≤ n) (hle : n ≤ maxBytes) :
    ∃ k, freeListOf n = some k ∧ classSize k = sRoundUp n := by
  have hmax : maxBytes = 128 := rfl
  have hindex : sFreelistIndex n = (n + 7) / 8 - 1 := by
    simp only [sFreelistIndex, sizeT, alignBytes]
    omega
  have hlt : sFreelistIndex n < nFreelists := by
    rw [hindex, nFreelists]
    omega
  refine ⟨⟨sFreelistIndex n, hlt⟩, dif_pos hlt, ?_⟩
  rw [sRoundUp_eq (by omega)]
  simp only [classSize, alignBytes, hindex]
  omega

/-- The list of a class size. -/
theorem freeListOf_classSize (k : Fin nFreelists) : freeListOf (classSize k) = some k := by
  revert k
  decide

/-- The sizes of the lists. -/
theorem classSize_bounds (k : Fin nFreelists) : 8 ≤ classSize k ∧ classSize k ≤ maxBytes := by
  have hk : k.val < 16 := k.isLt
  simp only [classSize, alignBytes, maxBytes]
  omega

/-- They are multiples of 8. -/
theorem dvd_classSize (k : Fin nFreelists) : alignBytes ∣ classSize k := Dvd.intro _ rfl

/-- A multiple of 8 up to 128 is a class size. -/
theorem exists_classSize {n : ℕ} (hpos : 0 < n) (hle : n ≤ maxBytes) (hdvd : alignBytes ∣ n) :
    ∃ k, classSize k = n := by
  obtain ⟨m, rfl⟩ := hdvd
  simp only [alignBytes, maxBytes] at hpos hle
  refine ⟨⟨m - 1, by rw [nFreelists]; omega⟩, ?_⟩
  simp only [classSize, alignBytes]
  omega

/-! ## The blocks on the lists -/

/-- The block at an address on a list. -/
def freeBlock (k : Fin nFreelists) (p : ℕ) : Interval := ⟨p, classSize k⟩

/-- All blocks on the lists. -/
def freeBlocks (blocks : Fin nFreelists → List ℕ) : List Interval :=
  (List.finRange nFreelists).flatMap fun k => (blocks k).map (freeBlock k)

/-- A free block is a block of one of the lists. -/
theorem mem_freeBlocks {blocks : Fin nFreelists → List ℕ} {i : Interval} :
    i ∈ freeBlocks blocks ↔ ∃ k, ∃ p ∈ blocks k, freeBlock k p = i := by
  simp [freeBlocks, List.mem_flatMap]

/-- Concatenating families of which one member has grown. -/
theorem flatMap_update_perm {κ α β : Type*} [DecidableEq κ] (f : κ → α → β) (family : κ → List α)
    (front : List α) {k : κ} {keys : List κ} (hnodup : keys.Nodup) (hk : k ∈ keys) :
    (keys.flatMap fun j => (Function.update family k (front ++ family k) j).map (f j)).Perm
      (front.map (f k) ++ keys.flatMap fun j => (family j).map (f j)) := by
  induction keys with
  | nil => exact absurd hk List.not_mem_nil
  | cons key keys ih =>
    obtain ⟨hkey, hnodup⟩ := List.nodup_cons.mp hnodup
    rw [List.flatMap_cons, List.flatMap_cons]
    by_cases heq : key = k
    · subst heq
      have hrest : (keys.flatMap fun j => (Function.update family key (front ++ family key) j).map (f j)) =
          keys.flatMap fun j => (family j).map (f j) := by
        refine List.flatMap_congr fun j hj => ?_
        have hne : j ≠ key := fun h => hkey (h ▸ hj)
        rw [Function.update_of_ne hne]
      rw [hrest, Function.update_self, List.map_append, List.append_assoc]
    · rw [Function.update_of_ne heq]
      have hmem : k ∈ keys := (List.mem_cons.mp hk).resolve_left fun h => heq h.symm
      refine ((ih hnodup hmem).append_left _).trans ?_
      rw [← List.append_assoc, ← List.append_assoc]
      exact List.perm_append_comm.append_right _

/-- Growing one list. -/
theorem freeBlocks_update_perm (blocks : Fin nFreelists → List ℕ) (k : Fin nFreelists) (front : List ℕ) :
    (freeBlocks (Function.update blocks k (front ++ blocks k))).Perm
      (front.map (freeBlock k) ++ freeBlocks blocks) :=
  flatMap_update_perm freeBlock blocks front (List.nodup_finRange _) (List.mem_finRange k)

/-- A pointer, with null for 0. -/
def ptr (p : ℕ) : Option ℕ := if p = 0 then none else some p

/-- An address other than 0 is no null pointer. -/
theorem ptr_of_ne {p : ℕ} (h : p ≠ 0) : ptr p = some p := if_neg h

/-- A pointer that is not null has its address. -/
theorem ptr_eq_some {p q : ℕ} : ptr p = some q ↔ p = q ∧ q ≠ 0 := by
  unfold ptr
  split
  · simp only [false_iff, not_and_or, reduceCtorEq]
    omega
  · simp only [Option.some.injEq]
    omega

/-- Only 0 is the null pointer. -/
theorem ptr_eq_none {p : ℕ} : ptr p = none ↔ p = 0 := by simp [ptr]

/-- The lists are chains of the given blocks, and these and the other intervals tile the regions. -/
structure Lists (s : Arena) (blocks : Fin nFreelists → List ℕ) (others : List Interval) : Prop where
  chain : ∀ k, Chain (fun p => ptr (s.link p)) (ptr (s.sFreeList k)) (blocks k)
  tiles : Tiles (freeBlocks blocks ++ others) s.regions
  aligned : ∀ i ∈ freeBlocks blocks ++ others, alignBytes ∣ i.start ∧ alignBytes ∣ i.size
  malloc : MallocOk s.regions
  heap : s.sHeapSize = total s.regions

namespace Lists

variable {s : Arena} {blocks : Fin nFreelists → List ℕ} {others : List Interval}

/-- The lists do not depend on the bounds of the pool. -/
theorem congr (h : Lists s blocks others) {s' : Arena} (hlists : s'.sFreeList = s.sFreeList)
    (hlink : s'.link = s.link) (hregions : s'.regions = s.regions) (hheap : s'.sHeapSize = s.sHeapSize) :
    Lists s' blocks others where
  chain := by rw [hlists, hlink]; exact h.chain
  tiles := by rw [hregions]; exact h.tiles
  aligned := h.aligned
  malloc := by rw [hregions]; exact h.malloc
  heap := by rw [hheap, hregions]; exact h.heap

/-- The other intervals may be cut and reordered. -/
theorem retile (h : Lists s blocks others) {others' : List Interval} (htiles : Tiles others' others)
    (haligned : ∀ i ∈ others', alignBytes ∣ i.start ∧ alignBytes ∣ i.size) : Lists s blocks others' where
  chain := h.chain
  tiles := ((Tiles.refl _).append htiles).trans h.tiles
  aligned := fun i hi => by
    rcases List.mem_append.mp hi with hi | hi
    · exact h.aligned i (List.mem_append_left _ hi)
    · exact haligned i hi
  malloc := h.malloc
  heap := h.heap

/-- The other intervals may be reordered. -/
theorem perm (h : Lists s blocks others) {others' : List Interval} (hperm : others'.Perm others) :
    Lists s blocks others' :=
  h.retile (.of_perm hperm) fun i hi => h.aligned i (List.mem_append_right _ (hperm.mem_iff.mp hi))

/-- Free blocks lie apart from each other and from everything else. -/
theorem disjoint (h : Lists s blocks others) :
    (freeBlocks blocks ++ others).Pairwise Interval.Disjoint := h.tiles.pairwise_disjoint h.malloc.disjoint

/-- No part contains the null address. -/
theorem start_pos (h : Lists s blocks others) {i : Interval} (hi : i ∈ freeBlocks blocks ++ others)
    (hsize : 0 < i.size) : 0 < i.start := by
  by_contra hzero
  obtain ⟨r, hr, hmem⟩ := (h.tiles.mem_iff 0).mp ⟨i, hi, by omega, by omega⟩
  have := (h.malloc.region r hr).1
  exact absurd hmem.1 (by omega)

/-- Together the parts are smaller than the address space. -/
theorem total_lt (h : Lists s blocks others) : total (freeBlocks blocks ++ others) < 2 ^ 64 := by
  have hle := total_le h.malloc.disjoint (fun r hr => (h.malloc.region r hr).1)
    fun r hr => (h.malloc.region r hr).2.2
  rw [h.tiles.total]
  omega

/-- No block on a list starts inside one of the other intervals. -/
theorem not_listed (h : Lists s blocks others) {i : Interval} (hi : i ∈ others) {p : ℕ} (hp : i.Mem p)
    (k : Fin nFreelists) : p ∉ blocks k := fun hmem => by
  obtain ⟨-, -, hcross⟩ := List.pairwise_append.mp h.disjoint
  have hsize := (classSize_bounds k).1
  exact hcross (freeBlock k p) (mem_freeBlocks.mpr ⟨k, p, hmem, rfl⟩) i hi p
    ⟨le_refl p, by simp only [freeBlock]; omega⟩ hp

/-- Clients may write into the blocks they hold. -/
theorem write (h : Lists s blocks others) {i : Interval} (hi : i ∈ others) (data : ℕ → ℕ) :
    Lists { s with link := fun a => if i.Mem a then data a else s.link a } blocks others where
  chain k := (h.chain k).congr fun p hp => by
    have hout : ¬ i.Mem p := fun hmem => h.not_listed hi hmem k hp
    simp only [if_neg hout]
  tiles := h.tiles
  aligned := h.aligned
  malloc := h.malloc
  heap := h.heap

/-- An empty list has no first block. -/
theorem head_eq_zero (h : Lists s blocks others) {k : Fin nFreelists} :
    s.sFreeList k = 0 ↔ blocks k = [] := by
  rw [← ptr_eq_none, (h.chain k).head?_eq, List.head?_eq_none_iff]

/-- Putting one of the other intervals on a list. -/
theorem push (h : Lists s blocks (freeBlock k p :: others)) :
    Lists (s.pushFree k p) (Function.update blocks k (p :: blocks k)) others := by
  have hsize := (classSize_bounds k).1
  have hself : (freeBlock k p).Mem p := ⟨le_refl p, by simp only [freeBlock]; omega⟩
  have hp : p ≠ 0 := Nat.pos_iff_ne_zero.mp
    (h.start_pos (List.mem_append_right _ List.mem_cons_self) (by simp only [freeBlock]; omega))
  have hlisted := h.not_listed List.mem_cons_self hself
  have hperm : (freeBlocks (Function.update blocks k (p :: blocks k)) ++ others).Perm
      (freeBlocks blocks ++ freeBlock k p :: others) :=
    ((freeBlocks_update_perm blocks k [p]).append_right others).trans List.perm_middle.symm
  have hframe : ∀ j, Chain (fun a => ptr (Function.update s.link p (s.sFreeList k) a))
      (ptr (s.sFreeList j)) (blocks j) := fun j => (h.chain j).congr fun a ha => by
    have hne : a ≠ p := fun heq => hlisted j (heq ▸ ha)
    rw [Function.update_of_ne hne]
  refine ⟨fun j => ?_, (Tiles.of_perm hperm).trans h.tiles, fun i hi => h.aligned i (hperm.mem_iff.mp hi),
    h.malloc, h.heap⟩
  by_cases hj : j = k
  · subst hj
    simp only [Arena.pushFree, Function.update_self]
    refine ⟨ptr_of_ne hp, ?_⟩
    simp only [Function.update_self]
    exact hframe j
  · simp only [Arena.pushFree, Function.update_of_ne hj]
    exact hframe j

/-- Taking the first block off a list. -/
theorem pop {rest : List ℕ} (h : Lists s blocks others) (hk : blocks k = p :: rest) :
    s.sFreeList k = p ∧
      Lists (s.popFree k) (Function.update blocks k rest) (freeBlock k p :: others) := by
  have hchain := h.chain k
  rw [hk, chain_cons] at hchain
  obtain ⟨hhead, htail⟩ := hchain
  obtain ⟨hhead, -⟩ := ptr_eq_some.mp hhead
  refine ⟨hhead, ?_⟩
  have hgrown : Function.update (Function.update blocks k rest) k ([p] ++ Function.update blocks k rest k) =
      blocks := by
    rw [Function.update_self, Function.update_idem, List.singleton_append, ← hk, Function.update_eq_self]
  have hperm := freeBlocks_update_perm (Function.update blocks k rest) k [p]
  rw [hgrown] at hperm
  have hperm' : (freeBlocks (Function.update blocks k rest) ++ freeBlock k p :: others).Perm
      (freeBlocks blocks ++ others) := List.perm_middle.trans (hperm.symm.append_right others)
  refine ⟨fun j => ?_, (Tiles.of_perm hperm').trans h.tiles,
    fun i hi => h.aligned i (hperm'.mem_iff.mp hi), h.malloc, h.heap⟩
  by_cases hj : j = k
  · subst hj
    simp only [Arena.popFree, Function.update_self, hhead]
    exact htail
  · simp only [Arena.popFree, Function.update_of_ne hj]
    exact h.chain j

end Lists

end CppProject.StlAlloc
