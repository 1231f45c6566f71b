import CppProject.Lib.CString

/-!
# The synchronous client

`send_request` of `http.c`, from the request text in `buffer` to the string it returns. Each round of its
loop gets an outcome of `select` and `recv`. The result grows by `realloc` and `strncat`, with the length
of the string counted anew each time; `len` is a signed number that `realloc` and `strncat` take as
a `size_t`. Memory does not run out, and what it holds before it is written is arbitrary.
-/

namespace CppProject.HttpClient

open CString

/-- The bytes of a string literal of the source. -/
def literal (text : String) : List UInt8 := text.toList.map fun c => c.toNat.toUInt8

/-- The text both clients send. -/
def requestText (resource hostname : List UInt8) : List UInt8 :=
  literal "GET " ++ resource ++ literal " HTTP/1.1\r\nHost:" ++ hostname ++
    literal " \r\nConnection: close \r\n\r\n\r\n"

/-- `char buffer[1024]` of the synchronous client. -/
def requestBufferSize : ℕ := 1024

/-- What a round of the loop gets: no bytes are the end of the file. -/
inductive Round
  | timeout
  | failed
  | received (bytes : List UInt8)

/-- A number converted to `size_t`. -/
def sizeT (n : ℤ) : ℕ := (n % 2 ^ 64).toNat

/-- `result = realloc(result, strlen(result)+len+1); strncat(result, buffer, len)`. -/
def append (result buffer : Block) (len : ℤ) (memory : ℕ → UInt8) : Option Block :=
  (strlen result).bind fun n => strncat (realloc result (sizeT (n + len + 1)) memory) buffer (sizeT len)

/-- The loop, from the round with the given outcome on. -/
def receive (memory : ℕ → ℕ → UInt8) : List Round → Block → Block → Option Block
  | [], result, _ => some result
  | .timeout :: _, result, _ => some result
  | .failed :: rounds, result, buffer =>
    (append result buffer (-1) (memory rounds.length)).bind fun result => receive memory rounds result buffer
  | .received bytes :: rounds, result, buffer =>
    (write buffer 0 bytes).bind fun buffer =>
      if bytes = [] then some result
      else (append result buffer bytes.length (memory rounds.length)).bind fun result =>
        receive memory rounds result buffer

/-- `send_request(sockfd, hostname, resource)`. -/
def sendRequest (memory : ℕ → ℕ → UInt8) (hostname resource : List UInt8) (rounds : List Round) :
    Option Block :=
  (write (List.replicate requestBufferSize 0) 0 (requestText resource hostname ++ [0])).bind fun buffer =>
    receive memory rounds ((malloc 4 (memory rounds.length)).set 0 0) buffer

/-- The rounds in which a response arrives piece by piece, up to the end of the file. -/
def arriving (chunks : List (List UInt8)) : List Round := chunks.map .received ++ [.received []]

/-- A small number is itself as a `size_t`. -/
theorem sizeT_natCast {n : ℕ} (h : n < 2 ^ 64) : sizeT n = n := by
  rw [sizeT]
  omega

/-! ## One round -/

/-- A piece is appended up to its first zero byte, in a block with room for all of it. -/
theorem append_received {s : List UInt8} (hs : 0 ∉ s) (t : List UInt8) (hsize : s.length + t.length + 1 < 2 ^ 64)
    (rest tail : Block) (memory : ℕ → UInt8) :
    append (s ++ 0 :: rest) (t ++ tail) t.length memory =
      some (s ++ untilZero t ++ 0 :: (realloc rest t.length memory).drop (untilZero t).length) := by
  have hlen : strlen (s ++ 0 :: rest) = some s.length := by
    rw [strlen, string_append_zero hs, Option.map_some]
  have hcapacity : sizeT ((s.length : ℤ) + t.length + 1) = s.length + t.length + 1 := by
    exact_mod_cast sizeT_natCast hsize
  rw [append, hlen, Option.bind_some, hcapacity, realloc_append_zero, sizeT_natCast (by omega)]
  exact strncat_append hs (length_realloc _ _ _).ge tail

/-- Where the block is cut within its string, nothing can be appended. -/
theorem append_eq_none {s : List UInt8} (hs : 0 ∉ s) (rest buffer : Block) {len : ℤ}
    (hcut : sizeT (s.length + len + 1) ≤ s.length) (memory : ℕ → UInt8) :
    append (s ++ 0 :: rest) buffer len memory = none := by
  have hlen : strlen (s ++ 0 :: rest) = some s.length := by
    rw [strlen, string_append_zero hs, Option.map_some]
  rw [append, hlen, Option.bind_some, strncat, strlen, string_realloc_of_le hs _ hcut]
  rfl

/-! ## The loop -/

/-- What the rounds add to the string: every piece up to its first zero byte, until the loop ends. -/
def kept : List Round → List UInt8
  | [] => []
  | .timeout :: _ => []
  | .failed :: rounds => kept rounds
  | .received bytes :: rounds => if bytes = [] then [] else untilZero bytes ++ kept rounds

/-- What is added to the string has no zero byte. -/
theorem zero_not_mem_kept (rounds : List Round) : 0 ∉ kept rounds := by
  induction rounds with
  | nil => exact List.not_mem_nil
  | cons r rounds ih =>
    cases r with
    | timeout => exact List.not_mem_nil
    | failed => exact ih
    | received bytes =>
      rw [kept]
      split
      · exact List.not_mem_nil
      · exact fun hmem => (List.mem_append.mp hmem).elim (zero_not_mem_untilZero bytes) ih

/-- From a string of the given length on, no `recv` fails and no block needs `2 ^ 64` bytes, until the loop
ends. -/
def Fits : ℕ → List Round → Prop
  | _, [] => True
  | _, .timeout :: _ => True
  | _, .failed :: _ => False
  | n, .received bytes :: rounds =>
    bytes = [] ∨ n + bytes.length + 1 < 2 ^ 64 ∧ Fits (n + (untilZero bytes).length) rounds

/-- `recv` returns no more bytes than the buffer has. -/
def FitsBuffer (rounds : List Round) : Prop := ∀ bytes, .received bytes ∈ rounds → bytes.length ≤ requestBufferSize

/-- What holds of all rounds holds of those after the first. -/
theorem FitsBuffer.tail {r : Round} {rounds : List Round} (h : FitsBuffer (r :: rounds)) : FitsBuffer rounds :=
  fun bytes hbytes => h bytes (List.mem_cons_of_mem r hbytes)

/-- The string has no zero byte of its own after a piece is added. -/
theorem zero_not_mem_append_untilZero {s : List UInt8} (hs : 0 ∉ s) (bytes : List UInt8) : 0 ∉ s ++ untilZero bytes :=
  fun hmem => (List.mem_append.mp hmem).elim hs (zero_not_mem_untilZero bytes)

/-- A round whose piece fits the address space appends it, and the loop goes on from the longer string. -/
theorem receive_received {bytes : List UInt8} {rounds : List Round} {buffer : Block} (hne : bytes ≠ [])
    (hlen : bytes.length ≤ buffer.length) {s : List UInt8} (hs : 0 ∉ s)
    (hsize : s.length + bytes.length + 1 < 2 ^ 64) (memory : ℕ → ℕ → UInt8) (rest : Block) :
    receive memory (.received bytes :: rounds) (s ++ 0 :: rest) buffer =
      receive memory rounds (s ++ untilZero bytes ++
        0 :: (realloc rest bytes.length (memory rounds.length)).drop (untilZero bytes).length)
          (bytes ++ buffer.drop bytes.length) := by
  rw [receive, write_zero hlen, Option.bind_some, if_neg hne, append_received hs bytes hsize, Option.bind_some]

/-- The loop ends with a string, and what stands behind it was there before or is the memory gained. -/
theorem receive_of_fits {rounds : List Round} (hrounds : FitsBuffer rounds) (memory : ℕ → ℕ → UInt8)
    {s : List UInt8} (hs : 0 ∉ s) (hfits : Fits s.length rounds) (rest : Block) {buffer : Block}
    (hbuffer : buffer.length = requestBufferSize) :
    ∃ rest', receive memory rounds (s ++ 0 :: rest) buffer = some (s ++ kept rounds ++ 0 :: rest') ∧
      ∀ b ∈ rest', b ∈ rest ∨ ∃ i j, memory i j = b := by
  induction rounds generalizing s rest buffer with
  | nil => exact ⟨rest, by simp [receive, kept], fun _ => Or.inl⟩
  | cons r rounds ih =>
    cases r with
    | timeout => exact ⟨rest, by simp [receive, kept], fun _ => Or.inl⟩
    | failed => exact absurd hfits id
    | received bytes =>
      have hlen : bytes.length ≤ buffer.length := hbuffer ▸ hrounds bytes List.mem_cons_self
      have hwrite := write_zero hlen
      by_cases hbytes : bytes = []
      · refine ⟨rest, ?_, fun _ => Or.inl⟩
        rw [receive, hwrite, Option.bind_some, if_pos hbytes, kept, if_pos hbytes, List.append_nil]
      obtain ⟨hsize, hfits⟩ := hfits.resolve_left hbytes
      have hs' := zero_not_mem_append_untilZero hs bytes
      obtain ⟨rest', hreceive, hrest⟩ := ih hrounds.tail hs' (by rwa [List.length_append])
        ((realloc rest bytes.length (memory rounds.length)).drop (untilZero bytes).length)
        ((length_write hwrite).trans hbuffer)
      refine ⟨rest', ?_, fun b hb => ?_⟩
      · rw [receive_received hbytes hlen hs hsize, hreceive, kept, if_neg hbytes, List.append_assoc s]
      · rcases hrest b hb with hgrown | hmemory
        · rcases mem_realloc (List.mem_of_mem_drop hgrown) with hold | ⟨j, hj⟩
          · exact Or.inl hold
          · exact Or.inr ⟨_, j, hj⟩
        · exact Or.inr hmemory

/-- Otherwise the loop goes beyond a block. -/
theorem receive_eq_none {rounds : List Round} (hrounds : FitsBuffer rounds) (memory : ℕ → ℕ → UInt8)
    {s : List UInt8} (hs : 0 ∉ s) (hlen : s.length < 2 ^ 64) (hfits : ¬ Fits s.length rounds) (rest : Block)
    {buffer : Block} (hbuffer : buffer.length = requestBufferSize) :
    receive memory rounds (s ++ 0 :: rest) buffer = none := by
  induction rounds generalizing s rest buffer with
  | nil => exact absurd trivial hfits
  | cons r rounds ih =>
    cases r with
    | timeout => exact absurd trivial hfits
    | failed =>
      have hcut : sizeT ((s.length : ℤ) + -1 + 1) ≤ s.length := by
        rw [sizeT]
        omega
      rw [receive, append_eq_none hs rest buffer hcut, Option.bind_none]
    | received bytes =>
      have hbytes' := hrounds bytes List.mem_cons_self
      have hlen : bytes.length ≤ buffer.length := hbuffer ▸ hbytes'
      have hwrite := write_zero hlen
      obtain ⟨hbytes, hfits⟩ := not_or.mp hfits
      by_cases hsize : s.length + bytes.length + 1 < 2 ^ 64
      · have hs' := zero_not_mem_append_untilZero hs bytes
        have hkept := length_untilZero_le bytes
        rw [receive_received hbytes hlen hs hsize]
        exact ih hrounds.tail hs' (by rw [List.length_append]; omega)
          (fun h => hfits ⟨hsize, by rwa [List.length_append] at h⟩) _ ((length_write hwrite).trans hbuffer)
      · have hcut : sizeT ((s.length : ℤ) + bytes.length + 1) ≤ s.length := by
          rw [requestBufferSize] at hbytes'
          rw [sizeT]
          omega
        rw [receive, hwrite, Option.bind_some, if_neg hbytes, append_eq_none hs rest _ hcut, Option.bind_none]

/-! ## A response in pieces -/

/-- All of a response without zero bytes is added. -/
theorem kept_arriving {chunks : List (List UInt8)} (hchunks : ∀ c ∈ chunks, c ≠ [] ∧ 0 ∉ c) :
    kept (arriving chunks) = chunks.flatten := by
  induction chunks with
  | nil => rfl
  | cons c chunks ih =>
    obtain ⟨⟨hc, hzero⟩, hchunks⟩ := List.forall_mem_cons.mp hchunks
    rw [arriving, List.map_cons, List.cons_append, kept, if_neg hc, ← arriving, ih hchunks,
      untilZero_of_not_mem hzero, List.flatten_cons]

/-- Pieces that together stay below `2 ^ 64` bytes fit. -/
theorem fits_arriving {chunks : List (List UInt8)} {n : ℕ} (hsize : n + chunks.flatten.length + 1 < 2 ^ 64) :
    Fits n (arriving chunks) := by
  induction chunks generalizing n with
  | nil => exact Or.inl rfl
  | cons c chunks ih =>
    rw [List.flatten_cons, List.length_append] at hsize
    have hkept := length_untilZero_le c
    exact Or.inr ⟨by omega, ih (by omega)⟩

/-- The pieces of a response fit the buffer if each is short enough. -/
theorem fitsBuffer_arriving {chunks : List (List UInt8)} (hfit : ∀ c ∈ chunks, c.length ≤ requestBufferSize) :
    FitsBuffer (arriving chunks) := fun bytes hbytes => by
  rcases List.mem_append.mp hbytes with hbytes | hbytes
  · obtain ⟨c, hc, heq⟩ := List.mem_map.mp hbytes
    exact Round.received.inj heq ▸ hfit c hc
  · rw [Round.received.inj (List.mem_singleton.mp hbytes)]
    exact Nat.zero_le _

/-- The synchronous client returns the whole response, however it is cut into pieces. -/
theorem sendRequest_arriving {hostname resource : List UInt8} {chunks : List (List UInt8)}
    (hrequest : (requestText resource hostname).length < requestBufferSize)
    (hchunks : ∀ c ∈ chunks, c ≠ [] ∧ 0 ∉ c) (hfit : ∀ c ∈ chunks, c.length ≤ requestBufferSize)
    (hsize : chunks.flatten.length + 1 < 2 ^ 64) (memory : ℕ → ℕ → UInt8) :
    (sendRequest memory hostname resource (arriving chunks)).bind string = some chunks.flatten := by
  have hfits : (requestText resource hostname ++ [0]).length ≤
      (List.replicate requestBufferSize (0 : UInt8)).length := by
    rw [List.length_append, List.length_replicate]
    exact hrequest
  have hwrite := write_zero hfits
  obtain ⟨garbage, hmalloc, -⟩ := malloc_set_zero 3 (memory (arriving chunks).length)
  have hfits' : Fits 0 (arriving chunks) := fits_arriving (by rwa [Nat.zero_add])
  obtain ⟨rest, hresult, -⟩ := receive_of_fits (fitsBuffer_arriving hfit) memory (s := []) List.not_mem_nil
    hfits' garbage ((length_write hwrite).trans List.length_replicate)
  have hzero : 0 ∉ chunks.flatten := fun hmem => by
    obtain ⟨c, hc, hmem⟩ := List.mem_flatten.mp hmem
    exact (hchunks c hc).2 hmem
  rw [sendRequest, hwrite, Option.bind_some, hmalloc, ← List.nil_append (0 :: garbage), hresult,
    Option.bind_some, List.nil_append, kept_arriving hchunks, string_append_zero hzero]

end CppProject.HttpClient
