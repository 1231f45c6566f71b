import CppProject.Lib.Interval
import CppProject.Lib.Transition
import Mathlib.Logic.Function.Basic
import Mathlib.Data.List.Range

/-!
# The small-block allocator

`allocate` and `deallocate` with the pool, the 16 free lists and the links inside the free
blocks. Pointers are natural numbers with 0 for null, `size_t` is a natural number reduced
modulo `2 ^ 64`. The answers of `malloc` are given to each call as a list, 0 for a failure; a
call has no result if it asks for more answers than given, indexes outside the array of free
lists, or runs the threading loop without an end.

Memory is read and written through the link word of a block only. All such addresses are
multiples of 8, so two link words never overlap partially. A client may write anything into
the blocks it holds.
-/

namespace CppProject.StlAlloc

open AddressInterval

/-- `_ALIGN`. -/
def alignBytes : ℕ := 8

/-- `_MAX_BYTES`. -/
def maxBytes : ℕ := 128

/-- `_NFREELISTS`. -/
def nFreelists : ℕ := 16

/-- The default number of blocks `_S_refill` asks for. -/
def refillObjs : ℕ := 20

/-- `size_t` arithmetic. -/
def sizeT (n : ℕ) : ℕ := n % 2 ^ 64

/-- `_S_round_up`: `(bytes + _ALIGN - 1) & ~(_ALIGN - 1)`. -/
def sRoundUp (bytes : ℕ) : ℕ := sizeT (bytes + alignBytes - 1) &&& (2 ^ 64 - 1 - (alignBytes - 1))

/-- `_S_freelist_index`: `(bytes + _ALIGN - 1) / _ALIGN - 1`. -/
def sFreelistIndex (bytes : ℕ) : ℕ :=
  sizeT (sizeT (bytes + alignBytes - 1) / alignBytes + (2 ^ 64 - 1))

/-- `_S_free_list + _S_freelist_index(bytes)`, if that is an element of the array. -/
def freeListOf (bytes : ℕ) : Option (Fin nFreelists) :=
  if h : sFreelistIndex bytes < nFreelists then some ⟨sFreelistIndex bytes, h⟩ else none

/-- The static variables and the link words of memory, and a record of the regions `malloc` has
returned. The record is bookkeeping: no operation reads it. -/
structure Arena where
  sStartFree : ℕ
  sEndFree : ℕ
  sHeapSize : ℕ
  sFreeList : Fin nFreelists → ℕ
  link : ℕ → ℕ
  regions : List Interval

/-- The statics at the start of `main`, over memory with arbitrary contents. -/
def Arena.new (memory : ℕ → ℕ) : Arena where
  sStartFree := 0
  sEndFree := 0
  sHeapSize := 0
  sFreeList := fun _ => 0
  link := memory
  regions := []

namespace Arena

/-- `_S_end_free - _S_start_free`, as a `size_t`. -/
def bytesLeft (s : Arena) : ℕ := sizeT (s.sEndFree + 2 ^ 64 - s.sStartFree)

/-- Put a block in front of a free list. -/
def pushFree (s : Arena) (k : Fin nFreelists) (p : ℕ) : Arena :=
  { s with link := Function.update s.link p (s.sFreeList k)
           sFreeList := Function.update s.sFreeList k p }

/-- Take the first block off a free list. -/
def popFree (s : Arena) (k : Fin nFreelists) : Arena :=
  { s with sFreeList := Function.update s.sFreeList k (s.link (s.sFreeList k)) }

/-- `_S_start_free = (char*)malloc(bytes)`, with the answer of `malloc`. -/
def mallocStart (s : Arena) (bytes answer : ℕ) : Arena :=
  { s with sStartFree := answer
           regions := if answer = 0 then s.regions else ⟨answer, bytes⟩ :: s.regions }

/-- `_S_heap_size += bytes; _S_end_free = _S_start_free + bytes`. -/
def grow (s : Arena) (bytes : ℕ) : Arena :=
  { s with sHeapSize := sizeT (s.sHeapSize + bytes), sEndFree := s.sStartFree + bytes }

/-- What is asked of `malloc` for a request: `2 * total_bytes + _S_round_up(_S_heap_size >> 4)`. -/
def allocBytes (s : Arena) (totalBytes : ℕ) : ℕ :=
  sizeT (2 * totalBytes + sRoundUp (s.sHeapSize >>> 4))

/-- The remainder of the pool goes to the free list of its size. -/
def donate (s : Arena) : Option Arena :=
  if s.bytesLeft > 0 then (freeListOf s.bytesLeft).map fun k => s.pushFree k s.sStartFree else some s

/-- One round of the loop over the free lists after a failure of `malloc`: the first block of the
list becomes the pool. The loop has no `break`. -/
def takeBlock (s : Arena) (i : ℕ) : Option Arena :=
  (freeListOf i).bind fun k =>
    if s.sFreeList k ≠ 0 then
      some { s.popFree k with sStartFree := s.sFreeList k, sEndFree := s.sFreeList k + i }
    else some s

/-- `for (i = size; i <= _MAX_BYTES; i += _ALIGN)` around `takeBlock`. -/
def takeBlocks (size : ℕ) (s : Arena) : Option Arena :=
  (List.range' size ((maxBytes + alignBytes - size) / alignBytes) alignBytes).foldlM takeBlock s

end Arena

/-- `_S_chunk_alloc(size, nobjs)`: the chunk, the final value of `nobjs` and the new state. -/
def sChunkAlloc (size nobjs : ℕ) : List ℕ → Arena → Option (ℕ × ℕ × Arena)
  | answers, s =>
    let totalBytes := sizeT (size * nobjs)
    let bytesLeft := s.bytesLeft
    if bytesLeft ≥ totalBytes then
      some (s.sStartFree, nobjs, { s with sStartFree := s.sStartFree + totalBytes })
    else if bytesLeft ≥ size then
      let nobjs := bytesLeft / size
      let totalBytes := sizeT (size * nobjs)
      some (s.sStartFree, nobjs, { s with sStartFree := s.sStartFree + totalBytes })
    else
      let allocBytes := s.allocBytes totalBytes
      s.donate.bind fun s =>
        match answers with
        | [] => none
        | first :: answers =>
          if first ≠ 0 then sChunkAlloc size nobjs answers ((s.mallocStart allocBytes first).grow allocBytes)
          else ((s.mallocStart allocBytes first).takeBlocks size).bind fun s =>
            match answers with
            | [] => none
            | retry :: answers =>
              -- `_S_end_free = 0` before the retry, whose answer is not looked at
              sChunkAlloc size nobjs answers
                ((({ s with sEndFree := 0 } : Arena).mallocStart allocBytes retry).grow allocBytes)

/-- The threading loop of `_S_refill`, from the current object, with the number of rounds left
before the last one. -/
def threadObjs (n : ℕ) : ℕ → ℕ → (ℕ → ℕ) → ℕ → ℕ
  | 0, current, link => Function.update link current 0
  | rounds + 1, current, link => threadObjs n rounds (current + n) (Function.update link current (current + n))

/-- `_S_refill(n)`. -/
def sRefill (n : ℕ) (answers : List ℕ) (s : Arena) : Option (ℕ × Arena) :=
  (sChunkAlloc n refillObjs answers s).bind fun (chunk, nobjs, s) =>
    match nobjs with
    | 0 => none
    | 1 => some (chunk, s)
    | rounds + 2 => (freeListOf n).map fun k =>
      (chunk, { s with sFreeList := Function.update s.sFreeList k (chunk + n)
                       link := threadObjs n rounds (chunk + n) s.link })

/-- `allocate(n)`. -/
def allocate (n : ℕ) (answers : List ℕ) (s : Arena) : Option (ℕ × Arena) :=
  (freeListOf n).bind fun k =>
    if s.sFreeList k = 0 then sRefill (sRoundUp n) answers s
    else some (s.sFreeList k, s.popFree k)

/-- `deallocate(p, n)`. -/
def deallocate (p n : ℕ) (s : Arena) : Option Arena := (freeListOf n).map fun k => s.pushFree k p

/-- The allocator and the pointers its clients hold, each with the size it was requested with. -/
structure World where
  arena : Arena
  held : List (ℕ × ℕ)

/-- The block behind a pointer of a client. -/
def heldBlock (entry : ℕ × ℕ) : Interval := ⟨entry.1, sRoundUp entry.2⟩

/-- What the clients do. -/
inductive Call
  | allocate (n : ℕ) (answers : List ℕ)
  | deallocate (p n : ℕ)
  | write (p n : ℕ) (data : ℕ → ℕ)

/-- Requests are of 1 to 128 bytes; only held blocks are given back, with their size, or written. -/
def Call.Valid (w : World) : Call → Prop
  | .allocate n _ => 1 ≤ n ∧ n ≤ maxBytes
  | .deallocate p n => (p, n) ∈ w.held
  | .write p n _ => (p, n) ∈ w.held

instance (w : World) : (call : Call) → Decidable (call.Valid w)
  | .allocate _ _ => inferInstanceAs (Decidable (_ ∧ _))
  | .deallocate p n => inferInstanceAs (Decidable ((p, n) ∈ w.held))
  | .write p n _ => inferInstanceAs (Decidable ((p, n) ∈ w.held))

/-- Execute a call; a client holds every block it is given. -/
def Call.exec (w : World) : Call → Option World
  | .allocate n answers => (StlAlloc.allocate n answers w.arena).map fun (p, s) =>
      ⟨s, if p = 0 then w.held else (p, n) :: w.held⟩
  | .deallocate p n => (StlAlloc.deallocate p n w.arena).map fun s => ⟨s, w.held.erase (p, n)⟩
  | .write p n data =>
      some { w with arena.link := fun a => if (heldBlock (p, n)).Mem a then data a else w.arena.link a }

/-- What is asked of `malloc`: its regions are disjoint, 8-aligned, not at null and addressable. -/
structure MallocOk (regions : List Interval) : Prop where
  disjoint : regions.Pairwise Interval.Disjoint
  region : ∀ r ∈ regions, 0 < r.start ∧ alignBytes ∣ r.start ∧ r.start + r.size ≤ 2 ^ 64

instance (regions : List Interval) : Decidable (MallocOk regions) :=
  decidable_of_iff (regions.Pairwise Interval.Disjoint ∧
      ∀ r ∈ regions, 0 < r.start ∧ alignBytes ∣ r.start ∧ r.start + r.size ≤ 2 ^ 64)
    ⟨fun h => ⟨h.1, h.2⟩, fun h => ⟨h.disjoint, h.region⟩⟩

/-- One valid call during which `malloc` does as it should. -/
def Step (w : World) (call : Call) (w' : World) : Prop :=
  call.Valid w ∧ call.exec w = some w' ∧ MallocOk w'.arena.regions

/-- The allocator before the first call. -/
def World.new (memory : ℕ → ℕ) : World := ⟨Arena.new memory, []⟩

/-- Execute a call after checking that it is valid, and `malloc` afterwards. -/
def Call.check (w : World) (call : Call) : Option World :=
  if call.Valid w then (call.exec w).filter fun w' => decide (MallocOk w'.arena.regions) else none

/-- A checked call is a step. -/
theorem Call.step_of_check {w w' : World} {call : Call} (h : call.check w = some w') :
    Step w call w' := by
  rw [Call.check] at h
  obtain ⟨hvalid, hrun⟩ := Option.ite_none_right_eq_some.mp h
  obtain ⟨hexec, hmalloc⟩ := Option.filter_eq_some_iff.mp hrun
  exact ⟨hvalid, hexec, of_decide_eq_true hmalloc⟩

end CppProject.StlAlloc
