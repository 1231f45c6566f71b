import Mathlib.Data.List.Basic
import Mathlib.Data.List.TakeWhile
import Mathlib.Data.UInt

/-!
# Strings in blocks of memory

A block of memory is the list of its bytes. A string is what stands before the first zero byte of a
block. The operations of the C library on strings have no result where they would read or write beyond
the end of a block.
-/

namespace CString

/-- The bytes of an allocated block or an array. -/
abbrev Block := List UInt8

/-- The string at the start of a block. -/
def string : Block → Option (List UInt8)
  | [] => none
  | b :: rest => if b = 0 then some [] else (string rest).map (b :: ·)

/-- `strlen(block)`. -/
def strlen (block : Block) : Option ℕ := (string block).map List.length

/-- Write bytes into a block from an offset. -/
def write (block : Block) (offset : ℕ) (bytes : List UInt8) : Option Block :=
  if offset + bytes.length ≤ block.length then
    some (block.take offset ++ bytes ++ block.drop (offset + bytes.length))
  else none

/-- `malloc(size)`, with the contents the memory happens to have. -/
def malloc (size : ℕ) (memory : ℕ → UInt8) : Block := (List.range size).map memory

/-- `realloc(block, size)`, where the memory gained has arbitrary contents. -/
def realloc (block : Block) (size : ℕ) (memory : ℕ → UInt8) : Block :=
  block.take size ++ malloc (size - block.length) memory

/-- The at most `n` bytes of a block that `strncat` copies. -/
def strnRead : Block → ℕ → Option (List UInt8)
  | [], n => if n = 0 then some [] else none
  | b :: rest, n => if n = 0 ∨ b = 0 then some [] else (strnRead rest (n - 1)).map (b :: ·)

/-- `strncat(dest, src, n)`. -/
def strncat (dest src : Block) (n : ℕ) : Option Block :=
  (strlen dest).bind fun len => (strnRead src n).bind fun bytes => write dest len (bytes ++ [0])

variable {s : List UInt8} {block rest : Block}

/-- The size of an allocated block. -/
@[simp] theorem length_malloc (size : ℕ) (memory : ℕ → UInt8) : (malloc size memory).length = size := by
  rw [malloc, List.length_map, List.length_range]

/-- The string in a block is what is in front of the first zero byte. -/
theorem string_append_zero (h : 0 ∉ s) (rest : Block) : string (s ++ 0 :: rest) = some s := by
  induction s with
  | nil => rfl
  | cons b s ih =>
    obtain ⟨hb, hs⟩ := not_or.mp (List.mem_cons.not.mp h)
    rw [List.cons_append, string, if_neg (Ne.symm hb), ih hs, Option.map_some]

/-- A block without a zero byte holds no string. -/
theorem string_eq_none (h : 0 ∉ block) : string block = none := by
  induction block with
  | nil => rfl
  | cons b block ih =>
    obtain ⟨hb, hrest⟩ := not_or.mp (List.mem_cons.not.mp h)
    rw [string, if_neg (Ne.symm hb), ih hrest, Option.map_none]

/-- Bytes written at the start of a block. -/
theorem write_zero {bytes : List UInt8} (h : bytes.length ≤ block.length) :
    write block 0 bytes = some (bytes ++ block.drop bytes.length) := by
  rw [write, Nat.zero_add, if_pos h, List.take_zero, List.nil_append]

/-- Writing leaves the size of a block. -/
theorem length_write {block' : Block} {offset : ℕ} {bytes : List UInt8}
    (h : write block offset bytes = some block') : block'.length = block.length := by
  obtain ⟨hfits, hwritten⟩ := Option.ite_none_right_eq_some.mp h
  rw [← Option.some.inj hwritten, List.length_append, List.length_append, List.length_take, List.length_drop]
  omega

/-- New memory whose first byte is cleared. -/
theorem malloc_set_zero (size : ℕ) (memory : ℕ → UInt8) :
    ∃ rest, (malloc (size + 1) memory).set 0 0 = 0 :: rest ∧ ∀ b ∈ rest, ∃ i, memory i = b := by
  refine ⟨((List.range size).map Nat.succ).map memory, ?_, fun b hb => ?_⟩
  · rw [malloc, List.range_succ_eq_map, List.map_cons, List.set_cons_zero]
  · obtain ⟨i, -, hi⟩ := List.mem_map.mp hb
    exact ⟨i, hi⟩

/-! ## The part of a byte list that is a string -/

/-- The bytes before the first zero byte. -/
def untilZero (bytes : List UInt8) : List UInt8 := bytes.takeWhile (· != 0)

/-- No zero byte is in front of the first one. -/
theorem zero_not_mem_untilZero (bytes : List UInt8) : 0 ∉ untilZero bytes := fun hmem => by
  simpa using List.mem_takeWhile_imp hmem

/-- Bytes without a zero byte are kept. -/
@[simp] theorem untilZero_of_not_mem (h : 0 ∉ s) : untilZero s = s :=
  List.takeWhile_eq_self_iff.mpr fun _ hb => bne_iff_ne.mpr fun hzero => h (hzero ▸ hb)

/-- The first zero byte behind bytes that have none. -/
theorem untilZero_append (h : 0 ∉ s) (bytes : List UInt8) : untilZero (s ++ bytes) = s ++ untilZero bytes :=
  List.takeWhile_append_of_pos fun _ hb => bne_iff_ne.mpr fun hzero => h (hzero ▸ hb)

/-- No byte is added. -/
theorem length_untilZero_le (bytes : List UInt8) : (untilZero bytes).length ≤ bytes.length :=
  (List.takeWhile_prefix _).length_le

/-- Reading no more bytes than there are stops at the first zero byte. -/
theorem strnRead_append (t : List UInt8) (rest : Block) : strnRead (t ++ rest) t.length = some (untilZero t) := by
  induction t with
  | nil => cases rest <;> simp [strnRead, untilZero]
  | cons b t ih =>
    rw [List.cons_append, strnRead, List.length_cons, Nat.add_sub_cancel, ih]
    by_cases hb : b = 0
    · simp [hb, untilZero]
    · simp [hb, untilZero]

/-- A block that is grown has the size asked for. -/
@[simp] theorem length_realloc (block : Block) (size : ℕ) (memory : ℕ → UInt8) :
    (realloc block size memory).length = size := by
  rw [realloc, List.length_append, List.length_take, length_malloc]
  omega

/-- Every byte of a block that is grown was in the block or in the memory gained. -/
theorem mem_realloc {size : ℕ} {memory : ℕ → UInt8} {b : UInt8} (h : b ∈ realloc block size memory) :
    b ∈ block ∨ ∃ i, memory i = b := by
  rcases List.mem_append.mp h with h | h
  · exact Or.inl (List.mem_of_mem_take h)
  · obtain ⟨i, -, hi⟩ := List.mem_map.mp h
    exact Or.inr ⟨i, hi⟩

/-- A block that is grown keeps its string, with room for as many bytes as asked for. -/
theorem realloc_append_zero (s : List UInt8) (rest : Block) (n : ℕ) (memory : ℕ → UInt8) :
    realloc (s ++ 0 :: rest) (s.length + n + 1) memory = s ++ 0 :: realloc rest n memory := by
  have hsize : s.length + n + 1 - (s ++ 0 :: rest).length = n - rest.length := by
    rw [List.length_append, List.length_cons]
    omega
  have htail : s.length + n + 1 - s.length = n + 1 := by omega
  rw [realloc, hsize, List.take_append, List.take_of_length_le (by omega), htail, List.take_succ_cons,
    List.append_assoc, List.cons_append, realloc]

/-- A block cut within its string holds none. -/
theorem string_realloc_of_le (hs : 0 ∉ s) (rest : Block) {size : ℕ} (h : size ≤ s.length) (memory : ℕ → UInt8) :
    string (realloc (s ++ rest) size memory) = none := by
  have hsize : size - (s ++ rest).length = 0 := by
    rw [List.length_append]
    omega
  rw [realloc, hsize, List.take_append_of_le_length h, malloc, List.range_zero, List.map_nil, List.append_nil]
  exact string_eq_none fun hmem => hs (List.mem_of_mem_take hmem)

/-- `strncat` appends what stands before the first zero byte, into a block with room for it all. -/
theorem strncat_append {t : List UInt8} (hs : 0 ∉ s) {room : Block} (hroom : t.length ≤ room.length) (rest : Block) :
    strncat (s ++ 0 :: room) (t ++ rest) t.length =
      some (s ++ untilZero t ++ 0 :: room.drop (untilZero t).length) := by
  have hlen : strlen (s ++ 0 :: room) = some s.length := by
    rw [strlen, string_append_zero hs, Option.map_some]
  have ht := length_untilZero_le t
  have hfits : s.length + (untilZero t ++ [0]).length ≤ (s ++ 0 :: room).length := by
    simp only [List.length_append, List.length_cons, List.length_nil]
    omega
  have hdrop : (s ++ 0 :: room).drop (s.length + (untilZero t ++ [0]).length) = room.drop (untilZero t).length := by
    rw [List.drop_append, List.length_append, List.length_singleton, Nat.add_sub_cancel_left, List.drop_succ_cons,
      List.drop_of_length_le (by omega), List.nil_append]
  rw [strncat, hlen, Option.bind_some, strnRead_append, Option.bind_some, write, if_pos hfits, hdrop,
    List.take_left, ← List.append_assoc, List.append_assoc, List.singleton_append]

end CString
